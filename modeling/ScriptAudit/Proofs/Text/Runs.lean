import ScriptAudit.Proofs.Text.Occurrences

/-! # Runs of characters

A run of characters that pass a test goes from one index of a text to a later one. The longest run
from an index on ends before the first character that does not pass. Main statements:
`Covers.runEnd_eq`, by which a shorter run does not change where the longest one ends, and
`slice_append`.
-/
namespace ScriptAudit.Text

/-- From one index to the other the text has characters that pass a test. -/
structure Covers (cs : List Char) (test : Char → Bool) (i j : Nat) : Prop where
  le : i ≤ j
  passes : ∀ k, i ≤ k → k < j → ∃ c, cs[k]? = some c ∧ test c = true

variable {cs : List Char} {test : Char → Bool} {i j k : Nat} {c : Char}

namespace Covers

theorem refl (cs : List Char) (test : Char → Bool) (i : Nat) : Covers cs test i i where
  le := Nat.le_refl i
  passes _ h h' := absurd h' (Nat.not_lt_of_le h)

theorem trans (h : Covers cs test i j) (h' : Covers cs test j k) : Covers cs test i k where
  le := Nat.le_trans h.le h'.le
  passes n hin hnk := by
    by_cases hnj : n < j
    · exact h.passes n hin hnj
    · exact h'.passes n (Nat.le_of_not_lt hnj) hnk

theorem mono {test' : Char → Bool} (h : Covers cs test i j)
    (himp : ∀ c, test c = true → test' c = true) : Covers cs test' i j where
  le := h.le
  passes k hik hkj := by
    obtain ⟨c, hc, htest⟩ := h.passes k hik hkj
    exact ⟨c, hc, himp c htest⟩

theorem single (hc : cs[i]? = some c) (htest : test c = true) :
    Covers cs test i (i + 1) where
  le := Nat.le_succ i
  passes k hik hki := by
    obtain rfl : k = i := Nat.le_antisymm (Nat.le_of_lt_succ hki) hik
    exact ⟨c, hc, htest⟩

/-- A character that does not pass the test does not stand in between. -/
theorem ne_of_getElem? (h : Covers cs test i j) (htest : test c = false)
    (hc : cs[k]? = some c) : k < i ∨ j ≤ k := by
  by_cases hik : i ≤ k
  · by_cases hkj : k < j
    · obtain ⟨d, hd, htest'⟩ := h.passes k hik hkj
      obtain rfl : c = d := Option.some.inj (hc.symm.trans hd)
      rw [htest] at htest'
      cases htest'
    · exact Or.inr (Nat.le_of_not_lt hkj)
  · exact Or.inl (Nat.lt_of_not_le hik)

end Covers

/-- Where the longest run from index `i` on ends. -/
def runEnd (test : Char → Bool) (cs : List Char) (i : Nat) : Nat :=
  i + ((cs.drop i).takeWhile test).length

theorem le_runEnd (test : Char → Bool) (cs : List Char) (i : Nat) : i ≤ runEnd test cs i :=
  Nat.le_add_right i _

theorem drop_eq_cons (h : cs[i]? = some c) : cs.drop i = c :: cs.drop (i + 1) := by
  obtain ⟨hi, hc⟩ := List.getElem?_eq_some_iff.mp h
  rw [List.drop_eq_getElem_cons hi, hc]

theorem runEnd_of_passes (h : cs[i]? = some c) (hc : test c = true) :
    runEnd test cs i = runEnd test cs (i + 1) := by
  rw [runEnd, runEnd, drop_eq_cons h, List.takeWhile_cons_of_pos hc, List.length_cons]
  omega

theorem runEnd_of_stops (h : ∀ c, cs[i]? = some c → test c = false) : runEnd test cs i = i := by
  rw [runEnd]
  cases hc : cs[i]? with
  | none =>
    rw [List.drop_eq_nil_of_le (List.getElem?_eq_none_iff.mp hc)]
    rfl
  | some c =>
    rw [drop_eq_cons hc, List.takeWhile_cons_of_neg (by rw [h c hc]; decide)]
    rfl

theorem drop_runEnd (test : Char → Bool) (cs : List Char) (i : Nat) :
    cs.drop (runEnd test cs i) = (cs.drop i).dropWhile test := by
  have h := List.takeWhile_append_dropWhile (p := test) (l := cs.drop i)
  have hdrop : ((cs.drop i).takeWhile test ++ (cs.drop i).dropWhile test).drop
      ((cs.drop i).takeWhile test).length = (cs.drop i).dropWhile test := List.drop_left
  rwa [h, List.drop_drop] at hdrop

theorem covers_runEnd (test : Char → Bool) (cs : List Char) (i : Nat) :
    Covers cs test i (runEnd test cs i) where
  le := le_runEnd test cs i
  passes k hik hk := by
    have hlt : k - i < ((cs.drop i).takeWhile test).length := by
      unfold runEnd at hk
      omega
    have hget := List.getElem?_eq_getElem hlt
    have hmem := List.mem_of_getElem? hget
    obtain ⟨rest, hrest⟩ := List.takeWhile_prefix test (l := cs.drop i)
    have hprefix : (cs.drop i)[k - i]? = ((cs.drop i).takeWhile test)[k - i]? := by
      rw [← hrest, List.getElem?_append_left hlt, hrest]
    refine ⟨_, ?_, List.all_eq_true.mp List.all_takeWhile _ hmem⟩
    rw [← hget, ← hprefix, List.getElem?_drop, Nat.add_sub_cancel' hik]

/-- A run that goes on from a shorter one ends where it ends from the start of that one. -/
theorem Covers.runEnd_eq (h : Covers cs test i j) : runEnd test cs i = runEnd test cs j := by
  obtain ⟨hle, hpasses⟩ := h
  induction hle with
  | refl => rfl
  | @step j hle ih =>
    obtain ⟨c, hc, htest⟩ := hpasses j hle (Nat.lt_succ_self j)
    rw [ih fun k hik hkj => hpasses k hik (Nat.lt_succ_of_lt hkj), runEnd_of_passes hc htest]

theorem Covers.of_occursAt {word : List Char} (h : occursAt word cs i = true)
    (hword : ∀ c ∈ word, test c = true) : Covers cs test i (i + word.length) where
  le := Nat.le_add_right i _
  passes k hik hk := by
    obtain ⟨n, rfl⟩ := Nat.exists_eq_add_of_le hik
    have hn : n < word.length := by omega
    rw [getElem?_of_occursAt h hn, List.getElem?_eq_getElem hn]
    exact ⟨_, rfl, hword _ (List.getElem_mem hn)⟩

theorem runEnd_of_append {run rest : List Char} (h : cs.drop i = run ++ c :: rest)
    (hrun : ∀ d ∈ run, test d = true) (hc : test c = false) :
    runEnd test cs i = i + run.length := by
  rw [runEnd, h, List.takeWhile_append_of_pos hrun, List.takeWhile_cons_of_neg (by rw [hc]; decide),
    List.append_nil]

/-! Pieces of a text. -/

theorem slice_append (hij : i ≤ j) (hjk : j ≤ k) : slice cs i j ++ slice cs j k = slice cs i k := by
  obtain ⟨m, rfl⟩ := Nat.exists_eq_add_of_le hij
  obtain ⟨n, rfl⟩ := Nat.exists_eq_add_of_le hjk
  have hlength : i + m + n - i = m + n := by omega
  rw [slice, slice, slice, Nat.add_sub_cancel_left, Nat.add_sub_cancel_left, hlength, List.take_add,
    List.drop_drop]

theorem slice_self (cs : List Char) (i : Nat) : slice cs i i = [] := by
  rw [slice, Nat.sub_self, List.take_zero]

theorem slice_append_drop (h : i ≤ j) : slice cs i j ++ cs.drop j = cs.drop i := by
  have hdrop := List.take_append_drop (j - i) (cs.drop i)
  rwa [List.drop_drop, Nat.add_sub_cancel' h] at hdrop

theorem length_slice (h : j ≤ cs.length) : (slice cs i j).length = j - i := by
  rw [slice, List.length_take, List.length_drop]
  omega

section Append

variable {first behind : List Char}

theorem slice_of_drop_eq_append (h : cs.drop i = first ++ behind) :
    slice cs i (i + first.length) = first := by
  rw [slice, h, Nat.add_sub_cancel_left, List.take_left]

theorem drop_of_drop_eq_append (h : cs.drop i = first ++ behind) :
    cs.drop (i + first.length) = behind := by
  rw [← List.drop_drop, h, List.drop_left]

theorem occursAt_of_drop_eq_append (h : cs.drop i = first ++ behind) :
    occursAt first cs i = true :=
  List.isPrefixOf_iff_prefix.mpr ⟨behind, h.symm⟩

end Append

theorem slice_length_add (before text : List Char) (i j : Nat) :
    slice (before ++ text) (before.length + i) (before.length + j) = slice text i j := by
  rw [slice, slice, List.drop_length_add_append, Nat.add_sub_add_left]

theorem slice_append_of_le (h : j ≤ cs.length) (behind : List Char) :
    slice (cs ++ behind) i j = slice cs i j := by
  rcases Nat.le_total i j with hij | hji
  · rw [slice, slice, List.drop_append_of_le_length (Nat.le_trans hij h),
      List.take_append_of_le_length]
    rw [List.length_drop]
    omega
  · rw [slice, slice, Nat.sub_eq_zero_of_le hji, List.take_zero, List.take_zero]

theorem slice_of_getElem? (h : cs[i]? = some c) : slice cs i (i + 1) = [c] := by
  rw [slice, drop_eq_cons h, Nat.add_sub_cancel_left]
  rfl

theorem slice_of_occursAt {word : List Char} (h : occursAt word cs i = true) :
    slice cs i (i + word.length) = word := by
  obtain ⟨rest, hrest⟩ := List.isPrefixOf_iff_prefix.mp h
  exact slice_of_drop_eq_append hrest.symm

theorem slice_runEnd (test : Char → Bool) (cs : List Char) (i : Nat) :
    slice cs i (runEnd test cs i) = (cs.drop i).takeWhile test := by
  rw [slice, runEnd, Nat.add_sub_cancel_left]
  exact List.prefix_iff_eq_take.mp (List.takeWhile_prefix test) |>.symm

theorem test_of_mem_slice_runEnd (h : c ∈ slice cs i (runEnd test cs i)) : test c = true := by
  rw [slice_runEnd] at h
  exact List.all_eq_true.mp List.all_takeWhile c h

end ScriptAudit.Text
