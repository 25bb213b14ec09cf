import ScriptAudit.Pattern.Column
import ScriptAudit.Text.LineIndex
import ScriptAudit.Text.Split

/-! # Searching a text

The matches of a pattern are taken from left to right and do not overlap. An empty match is not
taken where the match before it ended. A match that spans more than the permitted number of lines
is dropped afterwards, so the text that it covers is not searched again. Replacing takes all matches,
however many lines they span.
-/
namespace ScriptAudit

/-- One occurrence of a pattern: the line on which it starts, its text, and the text of each group,
group 1 first and `none` for a group that took no part. -/
structure Match where
  line : Nat
  text : String
  groups : List (Option String)
  deriving DecidableEq, Repr

namespace Match

def group (m : Match) : Nat → Option String
  | 0 => none
  | n + 1 => m.groups[n]?.join

end Match

/-- An occurrence of a pattern: the index at which it starts, and the outcome of reading on. -/
structure Occurrence where
  first : Nat
  outcome : Outcome
  deriving DecidableEq, Repr

namespace Occurrence

def stop (m : Occurrence) : Nat := m.outcome.stop

/-- What the first group holds. -/
def captured (m : Occurrence) (text : List Char) : List Char :=
  ((m.outcome.group 1).map fun (i, j) => Text.slice text i j).getD []

/-- The text from an index on, with a value in the place of each occurrence. -/
def replaceFrom (text : List Char) (value : Occurrence → List Char) (i : Nat) :
    List Occurrence → List Char
  | [] => text.drop i
  | m :: ms => Text.slice text i m.first ++ (value m ++ replaceFrom text value m.stop ms)

end Occurrence

/-- Whether a match may follow one that ended at `lastEnd`. -/
def follows (lastEnd : Option Nat) (s : Cursor) (o : Outcome) : Bool :=
  lastEnd.all fun e => e ≤ s.index && e < o.stop

/-- The matches among the outcomes at successive places. -/
def takeMatches (outcomes : List (Cursor × Option Outcome)) : List (Cursor × Outcome) :=
  (outcomes.foldl (fun (lastEnd, taken) (s, found) =>
    match found with
    | some o => if follows lastEnd s o then (some o.stop, (s, o) :: taken) else (lastEnd, taken)
    | none => (lastEnd, taken)) ((none : Option Nat), [])).2.reverse

namespace Cursor

/-- The text between two indices at or behind the cursor. -/
def slice (s : Cursor) (first stop : Nat) : String :=
  String.ofList ((s.rest.drop (first - s.index)).take (stop - first))

end Cursor

namespace Pattern

def matchOf (p : Pattern) (lines : LineIndex) (s : Cursor) (o : Outcome) : Match where
  line := lines.lineAt s.offset
  text := s.slice s.index o.stop
  groups := (List.range p.groupCount).map fun n => (o.group (n + 1)).map fun (i, j) => s.slice i j

def lineSpan (text : String) : Nat := text.toList.count '\n' + 1

def search (p : Pattern) (text : String) (lines : LineIndex) (maxLines : Nat) : List Match :=
  ((takeMatches (p.outcomes text.toList)).map fun (s, o) => p.matchOf lines s o).filter
    fun m => lineSpan m.text ≤ maxLines

/-- The occurrences that a search takes, however many lines they span. -/
def taken (p : Pattern) (text : List Char) : List Occurrence :=
  (takeMatches (p.outcomes text)).map fun (s, o) => ⟨s.index, o⟩

def isFoundIn (p : Pattern) (text : String) : Bool :=
  (p.outcomes text.toList).any (·.2.isSome)

end Pattern
end ScriptAudit
