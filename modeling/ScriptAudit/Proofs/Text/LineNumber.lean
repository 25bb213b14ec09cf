import Mathlib.Algebra.GroupWithZero.Nat
import ScriptAudit.Proofs.Text.Lookup

/-! # Line numbers by counting

The line on which a character lies is one more than the number of line feeds before it. Main
statement: `lineAt_byteSize_take`, by which the line index of a text gives that number at the byte
offset of every character.
-/
namespace ScriptAudit

namespace Text

def byteSize (cs : List Char) : Nat := (cs.map Char.utf8Size).sum

@[simp] theorem byteSize_nil : byteSize [] = 0 := rfl

@[simp] theorem byteSize_cons (c : Char) (cs : List Char) :
    byteSize (c :: cs) = c.utf8Size + byteSize cs := by
  simp [byteSize]

@[simp] theorem byteSize_append (cs ds : List Char) :
    byteSize (cs ++ ds) = byteSize cs + byteSize ds := by
  simp [byteSize]

/-- The number of the line on which the character at index `i` lies. -/
def lineOf (cs : List Char) (i : Nat) : Nat := (cs.take i).count '\n' + 1

theorem lineOf_le_lineOf (cs : List Char) {i j : Nat} (h : i ≤ j) : lineOf cs i ≤ lineOf cs j :=
  Nat.succ_le_succ ((List.take_prefix_take_left h).sublist.count_le '\n')

theorem lineOf_length_add (before text : List Char) (i : Nat) :
    lineOf (before ++ text) (before.length + i) = lineOf text i + before.count '\n' := by
  rw [lineOf, lineOf, List.take_length_add_append, List.count_append]
  omega

theorem lineOf_append_of_le {cs : List Char} {i : Nat} (h : i ≤ cs.length) (behind : List Char) :
    lineOf (cs ++ behind) i = lineOf cs i := by
  rw [lineOf, lineOf, List.take_append_of_le_length h]

theorem lineOf_le (cs : List Char) (i : Nat) : lineOf cs i ≤ cs.count '\n' + 1 :=
  Nat.succ_le_succ ((List.take_sublist i cs).count_le '\n')

end Text

namespace LineIndex

/-- The line starts found in `cs`, which begins at the given offset, in order. -/
def startsFrom (offset : Nat) : List Char → List Nat
  | [] => []
  | c :: cs =>
    (if c == '\n' then [offset + c.utf8Size] else []) ++ startsFrom (offset + c.utf8Size) cs

theorem foldl_scan (cs : List Char) (offset : Nat) (found : List Nat) :
    (cs.foldl scan (offset, found)).2 = (startsFrom offset cs).reverse ++ found := by
  induction cs generalizing offset found with
  | nil => rfl
  | cons c cs ih =>
    simp only [List.foldl_cons, scan, startsFrom, ih]
    cases c == '\n' <;> simp

theorem starts_ofText (text : String) :
    (ofText text).starts.toList = 0 :: startsFrom 0 text.toList := by
  simp [ofText, foldl_scan]

theorem lt_of_mem_startsFrom {cs : List Char} {offset start : Nat}
    (h : start ∈ startsFrom offset cs) : offset < start := by
  induction cs generalizing offset with
  | nil => cases h
  | cons c cs ih =>
    have hc := c.utf8Size_pos
    rcases List.mem_append.mp h with h | h
    · cases hn : c == '\n' with
      | false => simp [hn] at h
      | true =>
        simp only [hn, if_true, List.mem_singleton] at h
        omega
    · have := ih h
      omega

theorem pairwise_startsFrom (offset : Nat) (cs : List Char) :
    (startsFrom offset cs).Pairwise (· < ·) := by
  induction cs generalizing offset with
  | nil => exact List.Pairwise.nil
  | cons c cs ih =>
    unfold startsFrom
    cases c == '\n' with
    | false => exact ih _
    | true => exact List.pairwise_cons.mpr ⟨fun _ h => lt_of_mem_startsFrom h, ih _⟩

theorem pairwise_starts (text : String) : (ofText text).starts.toList.Pairwise (· < ·) := by
  rw [starts_ofText]
  exact List.pairwise_cons.mpr ⟨fun _ h => lt_of_mem_startsFrom h, pairwise_startsFrom 0 _⟩

/-- Up to the byte offset of a character, as many lines start as there are line feeds before it. -/
theorem countP_startsFrom (cs : List Char) (offset i : Nat) :
    (startsFrom offset cs).countP (· ≤ offset + Text.byteSize (cs.take i)) =
      (cs.take i).count '\n' := by
  induction cs generalizing offset i with
  | nil => simp [startsFrom]
  | cons c cs ih =>
    cases i with
    | zero =>
      rw [List.take_zero, List.count_nil, List.countP_eq_zero]
      intro start hstart hle
      have hlt := lt_of_mem_startsFrom hstart
      have hle : start ≤ offset := of_decide_eq_true hle
      omega
    | succ i =>
      have hi := ih (offset + c.utf8Size) i
      rw [Nat.add_assoc] at hi
      simp only [startsFrom, List.take_succ_cons, Text.byteSize_cons, List.countP_append, hi,
        List.count_cons]
      cases hn : c == '\n' <;> simp [Nat.add_comm]

theorem lineAt_byteSize_take (text : String) (i : Nat) :
    (ofText text).lineAt (Text.byteSize (text.toList.take i)) = Text.lineOf text.toList i := by
  have h := countP_startsFrom text.toList 0 i
  rw [Nat.zero_add] at h
  rw [lineAt_eq_countP (pairwise_starts text), starts_ofText]
  simp [Text.lineOf, h]

end LineIndex
end ScriptAudit
