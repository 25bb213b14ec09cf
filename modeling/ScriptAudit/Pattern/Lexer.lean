import ScriptAudit.Pattern.Token

/-! # Cutting a written pattern into tokens

The lexer takes the characters of a written pattern one at a time. Its mode says what has been begun
and may still go on: a repetition may be followed by a question mark, an opening parenthesis by one
that announces flags or a name, a member of a class by a hyphen. Tokens are handed out as soon as
they are complete. The lexer has no answer when a piece of the text is no token, such as an unknown
escape, or when something is open at the end.

White space and comments are passed over where the flag `verbose` is in force, which the lexer has
to know by itself. It is switched for a group or for the rest of one, so the state before is kept
for each open group. How deeply groups and classes nest is not limited.
-/
namespace ScriptAudit

inductive Spacing where
  | exact
  | verbose
  | comment
  deriving DecidableEq, Repr

def Spacing.switch (spacing : Spacing) (change : Flag × Bool) : Spacing :=
  match change.1 with
  | .verbose => if change.2 then verbose else exact
  | _ => spacing

/-- What an escape stands for. -/
inductive Escape where
  | char (c : Char) (byte : Bool)
  | set (e : CharClass)
  | anchor (a : Anchor)
  deriving DecidableEq, Repr

/-- Where an escape stands: outside all classes, as a member of a class, or as the last character of
a range. -/
inductive EscapePlace where
  | outside
  | member
  | rangeEnd (first : Char)
  deriving DecidableEq, Repr

/-- Whether nothing has been passed over since the character before is held by `fresh`, where this
makes a difference for what two characters in a row mean. -/
inductive Mode where
  | ready
  /-- A repetition, behind which a question mark may follow, at a distance if it is `counted`. -/
  | repeated (least : Nat) (most : Option Nat) (counted : Bool)
  /-- An edge of a word, the kind of which may follow in braces. -/
  | edge
  | braces (edge : Bool) (text : List Char)
  | opened
  | special (text : List Char)
  | escape (place : EscapePlace)
  | code (place : EscapePlace) (width : Nat) (digits : List Char)
  | codeBraces (place : EscapePlace) (digits : List Char)
  | property (place : EscapePlace) (negated : Bool)
  | propertyBraces (place : EscapePlace) (negated : Bool) (name : List Char)
  | classStart
  | classHead (empty : Bool)
  | members
  /-- A member of a class, which may be the first character of a range or of an operator. -/
  | member (e : Escape) (fresh : Bool)
  | hyphen (e : Escape) (fresh : Bool)
  deriving DecidableEq, Repr

namespace Mode

/-- Whether white space and comments are passed over, if they are at all. -/
def passesBlanks : Mode → Bool
  | repeated _ _ counted => counted
  | edge | special _ | escape _ => false
  | _ => true

def notFresh : Mode → Mode
  | member e _ => member e false
  | hyphen e _ => hyphen e false
  | m => m

end Mode

/-- A class that is being read: its text from the bracket on, what stands before the last operator,
and the members behind it. The text and the members have the last ones first. -/
structure OpenClass where
  negated : Bool
  text : List Char
  left : Option (CharClass × ClassOp)
  members : List CharClass
  deriving DecidableEq, Repr

namespace OpenClass

def start : OpenClass := ⟨false, [], none, []⟩

def push (k : OpenClass) (e : CharClass) : OpenClass := { k with members := e :: k.members }

def body (k : OpenClass) : CharClass :=
  let right := CharClass.unionAll k.members.reverse
  match k.left with
  | some (left, op) => .combine op left right
  | none => right

def combine (k : OpenClass) (op : ClassOp) : OpenClass :=
  { k with left := some (k.body, op), members := [] }

def finish (k : OpenClass) : CharClass := .brackets k.negated k.body

/-- The class inside another one. If its text is the name of a class between colons, it is that
class. -/
def finishInside (k : OpenClass) : CharClass :=
  match AsciiClass.ofNotation? k.text.reverse with
  | some (named, negated) => .ascii named negated
  | none => k.finish

end OpenClass

/-- The open classes and the spacing outside the open groups stand with the innermost first. -/
structure Lexer where
  mode : Mode
  classes : List OpenClass
  spacing : Spacing
  outer : List Spacing
  deriving DecidableEq, Repr

namespace Lexer

/-- The tokens that are complete, and how the lexer goes on. -/
abbrev Step := Option (List Token × Lexer)

def start : Lexer := ⟨.ready, [], .exact, []⟩

def turn (s : Lexer) (mode : Mode) : Step := some ([], { s with mode := mode })

/-- Hands out a token that is complete. -/
def emit (s : Lexer) (t : Token) : Step :=
  match t with
  | .openGroup _ flags => some ([t],
      { s with mode := .ready, spacing := flags.foldl .switch s.spacing,
               outer := s.spacing :: s.outer })
  | .setFlags flags =>
    some ([t], { s with mode := .ready, spacing := flags.foldl .switch s.spacing })
  | .close =>
    match s.outer with
    | [] => none
    | spacing :: outer => some ([t], { s with mode := .ready, spacing := spacing, outer := outer })
  | _ => some ([t], { s with mode := .ready })

/-! Classes. -/

/-- Changes the innermost class. -/
def inClass (s : Lexer) (change : OpenClass → OpenClass) (mode : Mode) : Lexer :=
  { s with classes := s.classes.modifyHead change, mode := mode }

def push (s : Lexer) (e : CharClass) : Lexer := s.inClass (·.push e) .members

def openClass (s : Lexer) : Lexer :=
  { s with classes := .start :: s.classes, mode := .classStart }

def closeClass? (s : Lexer) : Step :=
  match s.classes with
  | [] => none
  | [k] => { s with classes := [] }.emit (.set k.finish)
  | k :: outer :: classes =>
    some ([], { s with classes := outer.push k.finishInside :: classes, mode := .members })

def memberOf? : Escape → Option CharClass
  | .char c _ => some (.char c)
  | .set e => some e
  | .anchor _ => none

/-- The operator that is written with two of these characters. -/
def operator? : Char → Option ClassOp
  | '&' => some .intersection
  | '-' => some .difference
  | '~' => some .symmetricDifference
  | _ => none

/-- What is in a class begins with this character. -/
def takeMember? (s : Lexer) (c : Char) : Step :=
  if c = '[' then some ([], s.openClass)
  else if c = ']' then s.closeClass?
  else if c = '\\' then s.turn (.escape .member)
  else s.turn (.member (.char c false) (operator? c).isSome)

/-- At the start of a class hyphens stand for themselves, and so does a closing bracket unless a
hyphen stands before it. -/
def takeHead? (s : Lexer) (empty : Bool) (c : Char) : Step :=
  if c = '-' then some ([], s.inClass (·.push (.char '-')) (.classHead false))
  else if c = ']' ∧ empty then some ([], s.push (.char ']'))
  else s.takeMember? c

/-- Behind a member of a class. -/
def takeBehind? (s : Lexer) (e : Escape) (fresh : Bool) (c : Char) : Step :=
  match operator? c with
  | some op =>
    if fresh ∧ e = .char c false then some ([], s.inClass (·.combine op) .members)
    else s.turn (.hyphen e true)
  | none => none

/-- Behind a hyphen in a class, which makes a range if neither a bracket nor another hyphen
follows. -/
def takeRange? (s : Lexer) (e : Escape) (fresh : Bool) (c : Char) : Step := do
  let member ← memberOf? e
  if c = ']' then ((s.push member).push (.char '-')).closeClass?
  else if c = '-' then
    if fresh then some ([], (s.push member).inClass (·.combine .difference) .members)
    else (s.push member).turn (.hyphen (.char '-' false) true)
  else match e with
    | .char first _ =>
      if c = '\\' then s.turn (.escape (.rangeEnd first))
      else if first ≤ c then some ([], s.push (.range first c)) else none
    | _ => none

/-! Escapes. -/

/-- Puts what an escape stands for where it stands. -/
def put? (s : Lexer) (place : EscapePlace) (e : Escape) : Step :=
  match place, e with
  | .outside, .char c byte => s.emit (.char c byte)
  | .outside, .set k => s.emit (.set k)
  | .outside, .anchor a => s.emit (.anchor a)
  | .member, .anchor _ => none
  | .member, e => s.turn (.member e false)
  | .rangeEnd first, .char last _ =>
    if first ≤ last then some ([], s.push (.range first last)) else none
  | .rangeEnd _, _ => none

/-- The escapes of a single character. -/
def escape? (c : Char) : Option Escape :=
  match c with
  | 'd' => some (.set (.escape .digit false))
  | 'D' => some (.set (.escape .digit true))
  | 's' => some (.set (.escape .blank false))
  | 'S' => some (.set (.escape .blank true))
  | 'w' => some (.set (.escape .word false))
  | 'W' => some (.set (.escape .word true))
  | 'A' => some (.anchor .textStart)
  | 'z' => some (.anchor .textEnd)
  | 'B' => some (.anchor (.word .noBoundary))
  | '<' => some (.anchor (.word .start))
  | '>' => some (.anchor (.word .stop))
  | 'n' => some (.char '\n' false)
  | 't' => some (.char '\t' false)
  | 'r' => some (.char '\r' false)
  | 'a' => some (.char '\x07' false)
  | 'v' => some (.char '\x0b' false)
  | 'f' => some (.char '\x0c' false)
  | c => if Token.isEscapable c then some (.char c false) else none

def takeEscape? (s : Lexer) (place : EscapePlace) (c : Char) : Step :=
  match c with
  | 'x' => s.turn (.code place 2 [])
  | 'u' => s.turn (.code place 4 [])
  | 'U' => s.turn (.code place 8 [])
  | 'p' => s.turn (.property place false)
  | 'P' => s.turn (.property place true)
  | 'b' => if place = .outside then s.turn .edge else none
  | c => (escape? c).bind (s.put? place)

def takeCode? (s : Lexer) (place : EscapePlace) (width : Nat) (digits : List Char) (c : Char) :
    Step :=
  if digits.isEmpty ∧ c = '\x7b' then s.turn (.codeBraces place [])
  else if (Token.hexValue? c).isNone then none
  else if digits.length + 1 < width then s.turn (.code place width (c :: digits))
  else (Token.scalar? (c :: digits).reverse).bind fun read => s.put? place (.char read (width == 2))

def takeCodeBraces? (s : Lexer) (place : EscapePlace) (digits : List Char) (c : Char) : Step :=
  if c = '\x7d' then
    (Token.scalar? digits.reverse).bind fun read => s.put? place (.char read false)
  else if (Token.hexValue? c).isNone then none
  else s.turn (.codeBraces place (c :: digits))

def takeProperty? (s : Lexer) (place : EscapePlace) (negated : Bool) (c : Char) : Step :=
  if c = '\x7b' then s.turn (.propertyBraces place negated [])
  else if c = '\\' then none
  else s.put? place (.set (.property [c] negated))

def takePropertyBraces? (s : Lexer) (place : EscapePlace) (negated : Bool) (name : List Char)
    (c : Char) : Step :=
  if c = '\x7d' then s.put? place (.set (CharClass.ofProperty name.reverse negated))
  else s.turn (.propertyBraces place negated (c :: name))

/-! Outside classes. -/

def takeBraces? (s : Lexer) (edge : Bool) (text : List Char) (c : Char) : Step :=
  if c ≠ '\x7d' then s.turn (.braces edge (c :: text))
  else if edge && Token.startsName text.reverse then
    (Token.edge? text.reverse).bind fun e => s.emit (.anchor (.word e))
  else (Token.bounds? text.reverse).map fun (least, most) =>
    (if edge then [.anchor (.word .boundary)] else [],
      { s with mode := .repeated least most true })

/-- Behind an opening parenthesis and a question mark. -/
def takeSpecial? (s : Lexer) (text : List Char) (c : Char) : Step :=
  match c with
  | ':' => (Token.flags? text.reverse).bind fun flags => s.emit (.openGroup .plain flags)
  | ')' => (Token.flags? text.reverse).bind fun flags =>
    if flags.isEmpty then none else s.emit (.setFlags flags)
  | '>' => (Token.groupNameOf? text.reverse).bind fun name => s.emit (.openGroup (.named name) [])
  | c => s.turn (.special (c :: text))

def takeReady? (s : Lexer) (c : Char) : Step :=
  match c with
  | '\\' => s.turn (.escape .outside)
  | '[' => some ([], s.openClass)
  | '.' => s.emit .dot
  | '^' => s.emit (.anchor .caret)
  | '$' => s.emit (.anchor .dollar)
  | '|' => s.emit .bar
  | '(' => s.turn .opened
  | ')' => s.emit .close
  | '*' => s.turn (.repeated 0 none false)
  | '+' => s.turn (.repeated 1 none false)
  | '?' => s.turn (.repeated 0 (some 1) false)
  | '\x7b' => s.turn (.braces false [])
  | c => s.emit (.char c false)

/-! A character. -/

/-- Passes over a character of white space or of a comment. -/
def pass? (s : Lexer) (c : Char) : Option Lexer :=
  let passed := { s with mode := s.mode.notFresh }
  match s.spacing with
  | .exact => none
  | .comment => some (if c = '\n' then { s with spacing := .verbose } else s)
  | .verbose =>
    if !s.mode.passesBlanks then none
    else if Unicode.isBlank c then some passed
    else if c = '#' then some { passed with spacing := .comment }
    else none

/-- Finishes what has been begun and cannot go on with this character. -/
def settle? (s : Lexer) (c : Char) : Step :=
  match s.mode with
  | .repeated least most _ => if c = '?' then some ([], s) else s.emit (.times least most true)
  | .edge => if c = '\x7b' then some ([], s) else s.emit (.anchor (.word .boundary))
  | .opened => if c = '?' then some ([], s) else s.emit (.openGroup .numbered [])
  | .member e fresh =>
    if c = '-' ∨ (fresh ∧ e = .char c false) then some ([], s)
    else (memberOf? e).map fun k => ([], s.push k)
  | _ => some ([], s)

def take? (s : Lexer) (c : Char) : Step :=
  match s.mode with
  | .ready => s.takeReady? c
  | .repeated least most _ => s.emit (.times least most false)
  | .edge => s.turn (.braces true [])
  | .braces edge text => s.takeBraces? edge text c
  | .opened => s.turn (.special [])
  | .special text => s.takeSpecial? text c
  | .escape place => s.takeEscape? place c
  | .code place width digits => s.takeCode? place width digits c
  | .codeBraces place digits => s.takeCodeBraces? place digits c
  | .property place negated => s.takeProperty? place negated c
  | .propertyBraces place negated name => s.takePropertyBraces? place negated name c
  | .classStart =>
    if c = '^' then some ([], s.inClass ({ · with negated := true }) (.classHead true))
    else s.takeHead? true c
  | .classHead empty => s.takeHead? empty c
  | .members => s.takeMember? c
  | .member e fresh => s.takeBehind? e fresh c
  | .hyphen e fresh => s.takeRange? e fresh c

/-- Adds the character to the text of the innermost class. -/
def record (s : Lexer) (c : Char) : Lexer :=
  { s with classes := s.classes.modifyHead fun k => { k with text := c :: k.text } }

/-- Takes a character, unless it is passed over as it is or after what was begun is finished. -/
def feed? (s : Lexer) (c : Char) : Step :=
  match s.pass? c with
  | some passed => some ([], passed.record c)
  | none => do
    let (ts, s) ← s.settle? c
    match s.pass? c with
    | some passed => return (ts, passed.record c)
    | none =>
      let (us, s) ← s.take? c
      return (ts ++ us, s.record c)

def run? (s : Lexer) : List Char → Step
  | [] => some ([], s)
  | c :: cs => do
    let (ts, s) ← s.feed? c
    let (us, s) ← s.run? cs
    return (ts ++ us, s)

/-- What is still to be handed out at the end of the text, where nothing may be open. -/
def finish? (s : Lexer) : Option (List Token) :=
  if s.classes.isEmpty && s.outer.isEmpty then
    match s.mode with
    | .ready => some []
    | .repeated least most _ => some [.times least most true]
    | .edge => some [.anchor (.word .boundary)]
    | _ => none
  else none

end Lexer

/-- All tokens of a text. -/
def Token.readAll? (cs : List Char) : Option (List Token) := do
  let (ts, s) ← Lexer.start.run? cs
  return ts ++ (← s.finish?)

end ScriptAudit
