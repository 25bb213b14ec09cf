import ScriptAudit.Pattern.Basic
import ScriptAudit.Pattern.CharClass
import ScriptAudit.Text.Split

/-! # The tokens of a written pattern

What the pieces of a written pattern are, and how those are read that stand between delimiters: the
digits of a code point, the bounds of a repetition, the flags and the name of a group. Tokens do not
yet depend on the flags in force, and how they nest is the business of the reader.

The tokens cover the whole notation of patterns on text: characters and their escapes by code point
or by byte; classes in brackets with ranges, named ASCII classes, properties, nested classes and the
three operations between classes; the ends of the text, of lines and of words, whole or halved;
groups with a number, a name or flags; all flags; and greedy or reluctant repetitions.
-/
namespace ScriptAudit

/-- A place that is asked for without regard to flags. -/
inductive Anchor where
  | caret
  | dollar
  | textStart
  | textEnd
  | word (edge : WordEdge)
  deriving DecidableEq, Repr

inductive GroupKind where
  | plain
  | numbered
  | named (name : List Char)
  deriving DecidableEq, Repr

def GroupKind.captures : GroupKind → Bool
  | plain => false
  | numbered | named _ => true

inductive Token where
  /-- A character; `byte` if it is written as the two digits of a byte. -/
  | char (c : Char) (byte : Bool)
  | set (e : CharClass)
  | dot
  | anchor (a : Anchor)
  | bar
  | openGroup (kind : GroupKind) (flags : List (Flag × Bool))
  | setFlags (flags : List (Flag × Bool))
  | close
  | times (least : Nat) (most : Option Nat) (greedy : Bool)
  deriving DecidableEq, Repr

namespace Token

/-- Whether the token switches flags for all that follows it in its group. -/
def setsFlags : Token → Bool
  | setFlags _ => true
  | _ => false

def groupName? : Token → Option (List Char)
  | openGroup (.named name) _ => some name
  | _ => none

/-! Code points. -/

def hexValue? (c : Char) : Option Nat :=
  if c.isDigit then some (c.toNat - '0'.toNat)
  else if 'a' ≤ c ∧ c ≤ 'f' then some (c.toNat - 'a'.toNat + 10)
  else if 'A' ≤ c ∧ c ≤ 'F' then some (c.toNat - 'A'.toNat + 10)
  else none

/-- The character whose code point is written in hexadecimal digits. -/
def scalar? (digits : List Char) : Option Char := do
  guard (!digits.isEmpty)
  let values ← digits.mapM hexValue?
  let n := values.foldl (fun n d => 16 * n + d) 0
  if n.isValidChar then some (Char.ofNat n) else none

/-- Whether a backslash before `c` makes it stand for itself. -/
def isEscapable (c : Char) : Bool := c.toNat < 0x80 && !c.isAlphanum && c != '<' && c != '>'

/-! Repetitions. -/

def maxCount : Nat := 4294967295

/-- A decimal number, which may have white space around it. -/
def count? (text : List Char) : Option Nat := do
  let digits := Text.trim text
  guard (!digits.isEmpty && digits.all Char.isDigit)
  let n := digits.foldl (fun n d => 10 * n + (d.toNat - '0'.toNat)) 0
  if n ≤ maxCount then some n else none

/-- The bounds of a counted repetition, which stand between braces. -/
def bounds? (text : List Char) : Option (Nat × Option Nat) := do
  let (first, rest) := text.span (· != ',')
  let least ← count? first
  match rest with
  | [] => return (least, some least)
  | [_] => return (least, none)
  | _ :: last =>
    let most ← count? last
    if least ≤ most then some (least, some most) else none

/-! Edges of words that have names. -/

/-- Whether behind an edge of a word a brace opens its name and not a repetition. -/
def startsName (text : List Char) : Bool :=
  text.head?.any fun c => c == '-' || c.isAlpha

def edge? (name : List Char) : Option WordEdge :=
  if name = "start".toList then some .start
  else if name = "end".toList then some .stop
  else if name = "start-half".toList then some .startHalf
  else if name = "end-half".toList then some .stopHalf
  else none

/-! Groups and flags. -/

def flag? : Char → Option Flag
  | 'i' => some .ignoreCase
  | 'm' => some .multiLine
  | 's' => some .dotAll
  | 'U' => some .swapGreed
  | 'u' => some .unicode
  | 'R' => some .returns
  | 'x' => some .verbose
  | _ => none

/-- The switches that a run of flag letters stands for: those behind the hyphen are switched off.
No letter may be repeated, and a hyphen needs a letter behind it. -/
def flags? (letters : List Char) : Option (List (Flag × Bool)) := do
  let (on, off) := letters.span (· != '-')
  guard (off.isEmpty || off.length ≥ 2)
  let on ← on.mapM flag?
  let off ← off.tail.mapM flag?
  guard (decide (on ++ off).Nodup)
  return on.map (·, true) ++ off.map (·, false)

def startsGroupName (c : Char) : Bool := c == '_' || Unicode.isAlphabetic c

def isInGroupName (c : Char) : Bool :=
  c == '_' || c == '.' || c == '[' || c == ']' || Unicode.isAlphabetic c || Unicode.isNumber c

/-- The name of a group, behind the sign that opens it. -/
def groupNameOf? (text : List Char) : Option (List Char) :=
  let name := match text with
    | 'P' :: '<' :: name => name
    | '<' :: name => name
    | _ => []
  if name.head?.any startsGroupName && name.tail.all isInGroupName then some name else none

end Token
end ScriptAudit
