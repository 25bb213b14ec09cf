import ScriptAudit.Pattern.CharSet
import ScriptAudit.Unicode.Alphabetic

/-! # Classes of characters

A class is written in brackets, or as an escape. `CharClass` is its syntax, and `CharClass.set?` is
the set of characters that it stands for under the flags in force: a class in brackets is closed
under case, if case is ignored, and negated afterwards. Without the flag `unicode` a class is one of
ASCII characters and may not be negated, because the bytes it then stands for are no characters.

Which properties of characters can be named is not a matter of syntax, and neither is how large a
pattern may be. Both are given by a `Dialect`.
-/
namespace ScriptAudit

structure Dialect where
  /-- The set that is written as a property: a single letter, or the text between braces. -/
  property? : List Char → Option CharSet
  /-- How large a pattern may be when its counted repetitions are spelled out. -/
  sizeLimit : Nat

inductive Flag where
  | ignoreCase
  | multiLine
  | dotAll
  | swapGreed
  | unicode
  | returns
  | verbose
  deriving DecidableEq, Repr

structure Flags where
  ignoreCase : Bool
  multiLine : Bool
  dotAll : Bool
  swapGreed : Bool
  unicode : Bool
  /-- Carriage returns end lines, too. -/
  returns : Bool
  verbose : Bool
  deriving DecidableEq, Repr

namespace Flags

def start (ignoreCase : Bool) : Flags := ⟨ignoreCase, false, false, false, true, false, false⟩

def switch (flags : Flags) (change : Flag × Bool) : Flags :=
  match change.1 with
  | .ignoreCase => { flags with ignoreCase := change.2 }
  | .multiLine => { flags with multiLine := change.2 }
  | .dotAll => { flags with dotAll := change.2 }
  | .swapGreed => { flags with swapGreed := change.2 }
  | .unicode => { flags with unicode := change.2 }
  | .returns => { flags with returns := change.2 }
  | .verbose => { flags with verbose := change.2 }

end Flags

/-- The classes with an escape of their own. -/
inductive EscapeClass where
  | digit
  | blank
  | word
  deriving DecidableEq, Repr

/-- The classes of ASCII characters that have names. -/
inductive AsciiClass where
  | alnum
  | alpha
  | ascii
  | blank
  | cntrl
  | digit
  | graph
  | lower
  | print
  | punct
  | space
  | upper
  | word
  | xdigit
  deriving DecidableEq, Repr

namespace AsciiClass

def name : AsciiClass → String
  | alnum => "alnum"
  | alpha => "alpha"
  | ascii => "ascii"
  | blank => "blank"
  | cntrl => "cntrl"
  | digit => "digit"
  | graph => "graph"
  | lower => "lower"
  | print => "print"
  | punct => "punct"
  | space => "space"
  | upper => "upper"
  | word => "word"
  | xdigit => "xdigit"

def all : List AsciiClass :=
  [alnum, alpha, ascii, blank, cntrl, digit, graph, lower, print, punct, space, upper, word, xdigit]

def ranges : AsciiClass → Unicode.Ranges
  | alnum => [(0x30, 0x39), (0x41, 0x5a), (0x61, 0x7a)]
  | alpha => [(0x41, 0x5a), (0x61, 0x7a)]
  | ascii => [(0x0, 0x7f)]
  | blank => [(0x9, 0x9), (0x20, 0x20)]
  | cntrl => [(0x0, 0x1f), (0x7f, 0x7f)]
  | digit => [(0x30, 0x39)]
  | graph => [(0x21, 0x7e)]
  | lower => [(0x61, 0x7a)]
  | print => [(0x20, 0x7e)]
  | punct => [(0x21, 0x2f), (0x3a, 0x40), (0x5b, 0x60), (0x7b, 0x7e)]
  | space => [(0x9, 0xd), (0x20, 0x20)]
  | upper => [(0x41, 0x5a)]
  | word => [(0x30, 0x39), (0x41, 0x5a), (0x5f, 0x5f), (0x61, 0x7a)]
  | xdigit => [(0x30, 0x39), (0x41, 0x46), (0x61, 0x66)]

def set (k : AsciiClass) : CharSet := .ofRanges k.ranges

/-- The class whose name stands between colons behind a bracket, negated if a circumflex precedes
the name. -/
def ofNotation? (text : List Char) : Option (AsciiClass × Bool) :=
  (all.flatMap fun k => [(k, false), (k, true)]).find? fun (k, negated) =>
    text == (if negated then "[:^" else "[:").toList ++ k.name.toList ++ [':']

end AsciiClass

def EscapeClass.set (unicode : Bool) : EscapeClass → CharSet
  | digit => if unicode then .digit else AsciiClass.digit.set
  | blank => if unicode then .blank else AsciiClass.space.set
  | word => if unicode then .word else AsciiClass.word.set

/-- What may stand between two parts of a class. -/
inductive ClassOp where
  | intersection
  | difference
  | symmetricDifference
  deriving DecidableEq, Repr

def ClassOp.apply (s t : CharSet) : ClassOp → CharSet
  | intersection => .compl (.union s.compl t.compl)
  | difference => .compl (.union s.compl t)
  | symmetricDifference => .union (.compl (.union s.compl t)) (.compl (.union t.compl s))

inductive CharClass where
  | empty
  | char (c : Char)
  | range (first last : Char)
  | escape (k : EscapeClass) (negated : Bool)
  | ascii (k : AsciiClass) (negated : Bool)
  | property (name : List Char) (negated : Bool)
  | union (e f : CharClass)
  | combine (op : ClassOp) (e f : CharClass)
  | brackets (negated : Bool) (e : CharClass)
  deriving DecidableEq, Repr

namespace CharClass

def unionAll (es : List CharClass) : CharClass := es.foldr union empty

/-- The name of a property with the value that is excluded by it, if it excludes one. -/
def excluded? : List Char → Option (List Char)
  | '!' :: '=' :: value => some ('=' :: value)
  | c :: text => (excluded? text).map (c :: ·)
  | [] => none

/-- The class whose name stands between the braces of a property. To exclude a value is to negate
the class. -/
def ofProperty (text : List Char) (negated : Bool) : CharClass :=
  match excluded? text with
  | some name => .property name !negated
  | none => .property text negated

/-- The set, closed under case if case is ignored. -/
def closed (flags : Flags) (s : CharSet) : CharSet :=
  if flags.ignoreCase then (if flags.unicode then s.closeCase else s.closeAsciiCase) else s

def negated? (flags : Flags) (negated : Bool) (s : CharSet) : Option CharSet :=
  if negated then (if flags.unicode then some s.compl else none) else some s

def isMember (flags : Flags) (c : Char) : Bool := flags.unicode || c.toNat < 0x80

def set? (d : Dialect) (flags : Flags) : CharClass → Option CharSet
  | empty => some .empty
  | char c => if isMember flags c then some (.one c) else none
  | range a b => if isMember flags a && isMember flags b then some (.range a b) else none
  | escape k negated => negated? flags negated (k.set flags.unicode)
  | ascii k negated => negated? flags negated (closed flags k.set)
  | property name negated =>
    if flags.unicode then (d.property? name).bind fun s => negated? flags negated (closed flags s)
    else none
  | union e f => do return .union (← e.set? d flags) (← f.set? d flags)
  | combine op e f => do
    return op.apply (closed flags (← e.set? d flags)) (closed flags (← f.set? d flags))
  | brackets negated e => do negated? flags negated (closed flags (← e.set? d flags))

end CharClass

namespace Dialect

/-- The properties that the standard dialect knows, under their long and their short names. -/
def properties : List (List String × CharSet) :=
  [(["any"], .all), (["ascii"], AsciiClass.ascii.set),
   (["l", "letter"], .union AsciiClass.alpha.set (.ofRanges Unicode.letterRanges)),
   (["alphabetic", "alpha"],
    .unionAll [AsciiClass.alpha.set, .ofRanges Unicode.letterRanges,
      .ofRanges Unicode.letterNumberRanges, .ofRanges Unicode.otherAlphabeticRanges]),
   (["n", "number"],
    .unionAll [.digit, .ofRanges Unicode.letterNumberRanges, .ofRanges Unicode.otherNumberRanges]),
   (["nd", "decimalnumber", "digit"], .digit),
   (["nl", "letternumber"], .ofRanges Unicode.letterNumberRanges),
   (["no", "othernumber"], .ofRanges Unicode.otherNumberRanges),
   (["whitespace", "wspace", "space"], .blank)]

/-- Names are the same but for case, spaces, hyphens and underscores. -/
def normalized (name : List Char) : List Char :=
  (name.filter fun c => c != ' ' && c != '-' && c != '_').map Char.toLower

def standard : Dialect where
  property? name := (properties.find? fun p => p.1.any (·.toList == normalized name)).map (·.2)
  sizeLimit := 100000

end Dialect
end ScriptAudit
