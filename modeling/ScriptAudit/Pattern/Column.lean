import ScriptAudit.Pattern.Basic

/-! # Matching in one pass

The outcomes of a pattern at all places of a text are found in a single pass from the end of the
text to its start. What a set can do at a place depends only on what may follow it one character
further on, so a column holds, for each set of the pattern, the outcome of all that follows that
set, taken at the place to the right. From such a column and the outcome `after` of what follows
the whole pattern here, `value` is the outcome of the pattern here, and `retreat` also gives the
column for the place to the left.
-/
namespace ScriptAudit

inductive Column where
  | empty
  | set (s : CharSet) (beyond : Option Outcome)
  | check (a : Assertion)
  | seq (p q : Column)
  | alt (p q : Column)
  | plus (greedy : Bool) (p : Column)
  | group (n : Nat) (p : Column)

namespace Column

/-- The column to the right of the end of a text, where no set can be followed by anything. -/
def ofPattern : Pattern → Column
  | .empty => empty
  | .set s => set s none
  | .check a => check a
  | .seq p q => seq (ofPattern p) (ofPattern q)
  | .alt p q => alt (ofPattern p) (ofPattern q)
  | .plus greedy p => plus greedy (ofPattern p)
  | .group n p => group n (ofPattern p)

def value (s : Cursor) : Column → Option Outcome → Option Outcome
  | empty, after => after
  | set cs beyond, _ =>
    match s.rest with
    | [] => none
    | c :: _ => if cs.contains c then beyond else none
  | check a, after => if a.holds s then after else none
  | seq p q, after => p.value s (q.value s after)
  | alt p q, after => p.value s after <|> q.value s after
  | plus _ p, after => p.value s after
  | group n p, after =>
    (p.value s (after.map (·.passing (.closed n s.index)))).map (·.passing (.opened n s.index))

/-- The outcome of the pattern at `s`, and the column that holds what follows each set at `s`.
What follows the body of a repetition is another round or whatever comes after it, and a round
that reads nothing leads nowhere. -/
def retreat (s : Cursor) : Column → Option Outcome → Option Outcome × Column
  | empty, after => (after, empty)
  | set cs beyond, after => ((set cs beyond).value s after, set cs after)
  | check a, after => ((check a).value s after, check a)
  | seq p q, after =>
    let (there, q) := q.retreat s after
    let (here, p) := p.retreat s there
    (here, seq p q)
  | alt p q, after =>
    let (left, p) := p.retreat s after
    let (right, q) := q.retreat s after
    (left <|> right, alt p q)
  | plus greedy p, after =>
    let next := Pattern.prefer greedy (p.value s none) after
    (p.value s after, plus greedy (p.retreat s next).2)
  | group n p, after =>
    let (here, p) := p.retreat s (after.map (·.passing (.closed n s.index)))
    (here.map (·.passing (.opened n s.index)), group n p)

end Column

/-- The places of a text from its start to its end, the last one first. -/
def Cursor.placesBackwards (text : List Char) : Cursor × List Cursor :=
  text.foldl (fun (s, before) c => (s.advance c s.rest.tail, s :: before)) (Cursor.start text, [])

namespace Pattern

/-- The outcome of the pattern at every place of the text, in order. -/
def outcomes (p : Pattern) (text : List Char) : List (Cursor × Option Outcome) :=
  let (last, before) := Cursor.placesBackwards text
  ((last :: before).foldl (fun (column, found) s =>
    let (here, column) := column.retreat s s.finish
    (column, (s, here) :: found)) (Column.ofPattern p, [])).2

end Pattern
end ScriptAudit
