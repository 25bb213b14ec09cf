import ScriptAudit.Pattern.Lexer

/-! # Reading a written pattern

The reader goes through the tokens of a written pattern with one frame for each group that is
still open. A frame holds the finished alternatives of its group and the items of the one that is
being read. Flags apply from where they are set to the end of the group. A text is refused when
its groups do not nest, when two of them have the same name, when a repetition follows nothing that
can be repeated, when something is asked for that is not made of characters, or when spelling out
its counted repetitions would make the pattern larger than the dialect permits.

No part of the notation is left out. The `Dialect` says what the notation leaves open, which are the
names of properties and the size that is too large; what is proved of written patterns is proved for
every dialect.
-/
namespace ScriptAudit

/-- A group that is being read: its number if it captures, the flags to return to behind it, its
finished alternatives and the items of the current one, both last first, and whether the last
thing read may be repeated. -/
structure Frame where
  number : Option Nat
  outerFlags : Flags
  alternatives : List Pattern
  items : List Pattern
  repeatable : Bool

namespace Frame

def opened (number : Option Nat) (outerFlags : Flags) : Frame := ⟨number, outerFlags, [], [], false⟩

def push (f : Frame) (p : Pattern) : Frame := { f with items := p :: f.items, repeatable := true }

def endAlternative (f : Frame) : Frame :=
  { f with alternatives := Pattern.seqAll f.items.reverse :: f.alternatives, items := [],
           repeatable := false }

def finish (f : Frame) : Pattern :=
  let body := Pattern.altAll f.endAlternative.alternatives.reverse
  match f.number with
  | some n => .group n body
  | none => body

end Frame

namespace Flags

/-- A character as the flags want it. A byte beyond ASCII is no character. -/
def char? (flags : Flags) (c : Char) (byte : Bool) : Option Pattern :=
  if byte && !CharClass.isMember flags c then none
  else some (.set (CharClass.closed flags (.one c)))

/-- Any character, but for those that end lines. -/
def dot? (flags : Flags) : Option Pattern :=
  if !flags.unicode then none
  else if flags.dotAll then some (.set .all)
  else some (.set (.compl (if flags.returns then .ofList ['\r', '\n'] else .one '\n')))

def assertion (flags : Flags) : Anchor → Assertion
  | .caret => if flags.multiLine then .lineStart flags.returns else .textStart
  | .dollar => if flags.multiLine then .lineEnd flags.returns else .textEnd
  | .textStart => .textStart
  | .textEnd => .textEnd
  | .word edge => .word edge (!flags.unicode)

end Flags

structure Reader where
  flags : Flags
  groups : Nat
  outer : List Frame
  frame : Frame

namespace Reader

def start (flags : Flags) : Reader := ⟨flags, 0, [], .opened none flags⟩

def push (r : Reader) (p : Pattern) : Reader := { r with frame := r.frame.push p }

/-- Repeats `p`. A pattern that reads nothing is not repeated more than once. -/
def repeated? (d : Dialect) (p : Pattern) (least : Nat) (most : Option Nat) (greedy : Bool) :
    Option Pattern :=
  let (least, most) := if p.zeroWidth then (min least 1, some (min (most.getD 1) 1)) else (least, most)
  if p.size * max least (most.getD 0) ≤ d.sizeLimit then some (p.times least most greedy) else none

def step? (d : Dialect) (r : Reader) : Token → Option Reader
  | .char c byte => (r.flags.char? c byte).map r.push
  | .set e => (e.set? d r.flags).map fun s => r.push (.set s)
  | .dot => r.flags.dot?.map r.push
  | .anchor a => some (r.push (.check (r.flags.assertion a)))
  | .bar => some { r with frame := r.frame.endAlternative }
  | .openGroup kind change =>
    let groups := if kind.captures then r.groups + 1 else r.groups
    let number := if kind.captures then some groups else none
    some ⟨change.foldl Flags.switch r.flags, groups, r.frame :: r.outer, .opened number r.flags⟩
  | .setFlags change =>
    some { r with flags := change.foldl Flags.switch r.flags,
                  frame := { r.frame with repeatable := false } }
  | .close =>
    match r.outer with
    | [] => none
    | f :: outer =>
      some { r with flags := r.frame.outerFlags, outer := outer, frame := f.push r.frame.finish }
  | .times least most greedy =>
    match r.frame.repeatable, r.frame.items with
    | true, p :: items =>
      (repeated? d p least most (greedy != r.flags.swapGreed)).map fun p =>
        { r with frame := { r.frame with items := p :: items } }
    | _, _ => none

/-- The reader behind all tokens, outside all groups. -/
def run? (d : Dialect) (flags : Flags) (tokens : List Token) : Option Reader := do
  let r ← tokens.foldlM (step? d) (start flags)
  if r.outer.isEmpty then some r else none

end Reader

/-- The pattern that a text describes, if it describes one. -/
def Pattern.read? (d : Dialect) (written : String) (ignoreCase : Bool) : Option Pattern := do
  let tokens ← Token.readAll? written.toList
  let r ← Reader.run? d (.start ignoreCase) tokens
  let p := r.frame.finish
  if (tokens.filterMap Token.groupName?).Nodup ∧ p.size ≤ d.sizeLimit then some p else none

end ScriptAudit
