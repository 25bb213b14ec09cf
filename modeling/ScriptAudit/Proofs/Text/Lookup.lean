import ScriptAudit.Text.LineIndex

/-! # Looking up by halving

In an increasing array a number stands at one place at most, and what is in front of this place is
less. Main statement: `lineAt_eq_countP`, by which the two answers of a lookup lead to the same
line: the number of lines that start at the offset or before it.
-/
namespace ScriptAudit

/-- The array is cut at an index: what stands in front is less than the number, and what stands from
there on is greater. -/
def CutsAt (xs : Array Nat) (n i : Nat) : Prop :=
  ∀ j (hj : j < xs.size), (j < i → xs[j] < n) ∧ (i ≤ j → n < xs[j])

namespace Lookup

/-- The answer is right: the number stands where it is found, and it would stand where it is
missing. -/
def Answers (xs : Array Nat) (n : Nat) : Lookup → Prop
  | found i => xs[i]? = some n
  | missing i => i ≤ xs.size ∧ CutsAt xs n i

variable {xs : Array Nat}

theorem lt_of_lt (h : xs.toList.Pairwise (· < ·)) {i j : Nat} (hij : i < j) (hj : j < xs.size) :
    xs[i] < xs[j] :=
  List.pairwise_iff_getElem.mp h i j (Nat.lt_trans hij hj) hj hij

/-- Of what lies outside of the two indices, nothing is equal to the number. Each step keeps that,
as all that is cut off lies on the same side as the middle. -/
theorem answers_between (h : xs.toList.Pairwise (· < ·)) (n first stop : Nat)
    (hstop : stop ≤ xs.size) (hle : first ≤ stop)
    (hfront : ∀ j (hj : j < xs.size), j < first → xs[j] < n)
    (hback : ∀ j (hj : j < xs.size), stop ≤ j → n < xs[j]) :
    (between xs n first stop hstop).Answers xs n := by
  fun_induction between xs n first stop hstop with
  | case1 first stop hstop hlt middle hmiddle hfound =>
    exact hfound ▸ Array.getElem?_eq_getElem _
  | case2 first stop hstop hlt middle hmiddle hne hless ih =>
    refine ih hmiddle ?_ hback
    intro j hj hcut
    rcases Nat.lt_or_eq_of_le (Nat.le_of_lt_succ hcut) with hlt | rfl
    · exact Nat.lt_trans (lt_of_lt h hlt _) hless
    · exact hless
  | case3 first stop hstop hlt middle hmiddle hne hless ih =>
    refine ih (by omega) hfront ?_
    intro j hj hcut
    have hgreater : n < xs[middle] := by omega
    rcases Nat.lt_or_eq_of_le hcut with hlt | rfl
    · exact Nat.lt_trans hgreater (lt_of_lt h hlt hj)
    · exact hgreater
  | case4 first stop hstop hge =>
    refine ⟨by omega, fun j hj => ⟨hfront j hj, fun hcut => hback j hj (by omega)⟩⟩

end Lookup

namespace LineIndex

variable {index : LineIndex}

/-- A test that holds in front of an index and fails from there on holds as often as the index
says. -/
theorem countP_of_cut {xs : Array Nat} {test : Nat → Bool} {i : Nat} (hi : i ≤ xs.size)
    (hfront : ∀ j (hj : j < xs.size), j < i → test xs[j] = true)
    (hback : ∀ j (hj : j < xs.size), i ≤ j → test xs[j] = false) : xs.toList.countP test = i := by
  have hlength : xs.toList.length = xs.size := Array.length_toList
  have htake : (xs.toList.take i).countP test = i := by
    rw [List.countP_eq_length.mpr, List.length_take_of_le (hlength ▸ hi)]
    intro x hx
    obtain ⟨j, hj, rfl⟩ := List.mem_take_iff_getElem.mp hx
    exact hfront j (by omega) (by omega)
  have hdrop : (xs.toList.drop i).countP test = 0 := by
    rw [List.countP_eq_zero]
    intro x hx
    obtain ⟨j, hj, rfl⟩ := List.mem_drop_iff_getElem.mp hx
    exact ne_true_of_eq_false (hback (i + j) (by omega) (Nat.le_add_right i j))
  rw [← List.take_append_drop i xs.toList, List.countP_append, htake, hdrop,
    Nat.add_zero]

theorem answers_lookup (h : index.starts.toList.Pairwise (· < ·)) (offset : Nat) :
    (index.lookup offset).Answers index.starts offset :=
  Lookup.answers_between h offset 0 index.starts.size _ (Nat.zero_le _)
    (fun _ _ hj => absurd hj (Nat.not_lt_zero _)) (fun _ hj hle => absurd hj (Nat.not_lt.mpr hle))

/-- The line of an offset is the number of lines that start there or before. -/
theorem lineAt_eq_countP (h : index.starts.toList.Pairwise (· < ·)) (offset : Nat) :
    index.lineAt offset = index.starts.toList.countP (· ≤ offset) := by
  have hanswers := answers_lookup h offset
  unfold lineAt
  cases hlookup : index.lookup offset with
  | found i =>
    rw [hlookup] at hanswers
    obtain ⟨hi, hstands⟩ := Array.getElem?_eq_some_iff.mp hanswers
    symm
    apply countP_of_cut hi
    · intro j hj hlt
      rcases Nat.lt_or_eq_of_le (Nat.le_of_lt_succ hlt) with hlt | rfl
      · have hless := Lookup.lt_of_lt h hlt hi
        exact decide_eq_true (by omega)
      · exact decide_eq_true (by omega)
    · intro j hj hle
      have hgreater := Lookup.lt_of_lt h hle hj
      exact decide_eq_false (by omega)
  | missing i =>
    rw [hlookup] at hanswers
    obtain ⟨hi, hcut⟩ := hanswers
    symm
    apply countP_of_cut hi
    · exact fun j hj hlt => decide_eq_true (Nat.le_of_lt ((hcut j hj).1 hlt))
    · exact fun j hj hle => decide_eq_false (Nat.not_le.mpr ((hcut j hj).2 hle))

end LineIndex
end ScriptAudit
