/-! # Line numbers

The line index of a text holds the byte offset at which each line starts, in increasing order. The
line of an offset is looked up by halving: an offset at which a line starts is on that line, and any
other one is on the line that starts last before it, so an offset beyond the end is on the last
line.
-/
namespace ScriptAudit

/-- Where a number stands in an increasing array, or else the index at which it could be put in. -/
inductive Lookup where
  | found (i : Nat)
  | missing (i : Nat)
  deriving DecidableEq, Repr

/-- Looks a number up from the index `first` on and before the index `stop`. The middle of the two is
where the number stands, or else it cuts off one half. -/
def Lookup.between (xs : Array Nat) (n first stop : Nat) (hstop : stop ≤ xs.size) : Lookup :=
  if h : first < stop then
    let middle := (first + stop) / 2
    have hmiddle : middle < stop := by omega
    if xs[middle] = n then found middle
    else if xs[middle] < n then between xs n (middle + 1) stop hstop
    else between xs n first middle (Nat.le_of_lt (Nat.lt_of_lt_of_le hmiddle hstop))
  else missing first
  termination_by stop - first

structure LineIndex where
  starts : Array Nat
  deriving DecidableEq, Repr

namespace LineIndex

/-- The number of bytes read so far, and the line starts found so far, the last one first. -/
def scan (state : Nat × List Nat) (c : Char) : Nat × List Nat :=
  let offset := state.1 + c.utf8Size
  (offset, if c == '\n' then offset :: state.2 else state.2)

def ofText (text : String) : LineIndex :=
  ⟨(text.toList.foldl scan (0, [0])).2.reverse.toArray⟩

def lookup (index : LineIndex) (offset : Nat) : Lookup :=
  .between index.starts offset 0 index.starts.size (Nat.le_refl _)

/-- Lines are numbered from one on. Before the index at which an offset could be put in there are as
many line starts as the number of its line. -/
def lineAt (index : LineIndex) (offset : Nat) : Nat :=
  match index.lookup offset with
  | .found i => i + 1
  | .missing i => i

end LineIndex
end ScriptAudit
