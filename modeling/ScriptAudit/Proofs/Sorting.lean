import Mathlib.Data.List.Perm.Basic

/-! # Sorting and grouping lists

What a stable sort keeps, what it does not depend on, and how a list falls into parts by the values
of a key. Main statements: `filter_mergeSort_of_equal`, `mergeSort_perm_eq`, `flatMap_filter_perm`
and `pairwise_eraseReps`.
-/
namespace ScriptAudit

variable {α β κ : Type}

/-- A stable sort leaves the elements that are equal to a given one in their order. -/
theorem filter_mergeSort_of_equal {le : α → α → Bool}
    (htrans : ∀ a b c, le a b = true → le b c = true → le a c = true)
    (htotal : ∀ a b, (le a b || le b a) = true) {equal : α → Bool}
    (hequal : ∀ a b, equal a = true → equal b = true → le a b = true) (xs : List α) :
    (xs.mergeSort le).filter equal = xs.filter equal := by
  have hsorted : (xs.filter equal).Pairwise fun a b => le a b = true :=
    List.pairwise_filter.mpr (List.pairwise_of_forall fun a b ha hb => hequal a b ha hb)
  have hsub : (xs.filter equal).Sublist (xs.mergeSort le) :=
    List.sublist_mergeSort htrans htotal hsorted List.filter_sublist
  have hkept := hsub.filter equal
  rw [List.filter_filter] at hkept
  simp only [Bool.and_self] at hkept
  refine (hkept.eq_of_length ?_).symm
  exact ((List.mergeSort_perm xs le).symm.filter equal).length_eq

/-- Lists with the same elements are the same when sorted, if no two different elements are equal
in the order. -/
theorem mergeSort_perm_eq {le : α → α → Bool}
    (htrans : ∀ a b c, le a b = true → le b c = true → le a c = true)
    (htotal : ∀ a b, (le a b || le b a) = true) {xs ys : List α} (hperm : xs.Perm ys)
    (hantisymm : ∀ a ∈ xs, ∀ b ∈ xs, le a b = true → le b a = true → a = b) :
    xs.mergeSort le = ys.mergeSort le := by
  have hsorted : (xs.mergeSort le).Perm (ys.mergeSort le) :=
    (List.mergeSort_perm xs le).trans (hperm.trans (List.mergeSort_perm ys le).symm)
  refine hsorted.eq_of_pairwise ?_ (List.pairwise_mergeSort htrans htotal xs)
    (List.pairwise_mergeSort htrans htotal ys)
  intro a b ha hb
  exact hantisymm a (List.mem_mergeSort.mp ha) b (hperm.mem_iff.mpr (List.mem_mergeSort.mp hb))

/-- Lists that agree in one respect agree in another one that is settled by it. -/
theorem map_eq_map_of_map_eq_map {f : α → κ} {g : α → β} {xs ys : List α}
    (h : xs.map f = ys.map f) (hsettled : ∀ x ∈ xs, ∀ y ∈ ys, f x = f y → g x = g y) :
    xs.map g = ys.map g := by
  induction xs generalizing ys with
  | nil =>
    obtain rfl := List.map_eq_nil_iff.mp h.symm
    rfl
  | cons x xs ih =>
    obtain ⟨y, ys, rfl, hxy, htail⟩ := List.map_eq_cons_iff.mp h.symm
    rw [List.map_cons, List.map_cons, hsettled x List.mem_cons_self y List.mem_cons_self hxy.symm,
      ih htail.symm fun x' hx' y' hy' =>
        hsettled x' (List.mem_cons_of_mem x hx') y' (List.mem_cons_of_mem y hy')]

/-- Cut up by the values of a key, a list is the same but for the order. -/
theorem flatMap_filter_perm [DecidableEq κ] {key : α → κ} {keys : List κ} (hnodup : keys.Nodup)
    {xs : List α} (hkeys : ∀ x ∈ xs, key x ∈ keys) :
    (keys.flatMap fun k => xs.filter (key · = k)).Perm xs := by
  induction keys generalizing xs with
  | nil =>
    obtain rfl : xs = [] := List.eq_nil_iff_forall_not_mem.mpr fun x hx => by simpa using hkeys x hx
    exact .refl _
  | cons k keys ih =>
    obtain ⟨hk, hnodup⟩ := List.nodup_cons.mp hnodup
    have hothers : ∀ x ∈ xs.filter (!key · = k), key x ∈ keys := by
      intro x hx
      obtain ⟨hx, hne⟩ := List.mem_filter.mp hx
      exact (List.mem_cons.mp (hkeys x hx)).resolve_left (by simpa using hne)
    have hfilter : (keys.flatMap fun k' => xs.filter (key · = k')) =
        keys.flatMap fun k' => (xs.filter (!key · = k)).filter (key · = k') := by
      refine List.flatMap_congr fun k' hk' => ?_
      rw [List.filter_filter]
      refine List.filter_congr fun x _ => ?_
      have hne : k' ≠ k := fun h => hk (h ▸ hk')
      by_cases hx : key x = k'
      · simp [hx, hne]
      · simp [hx]
    rw [List.flatMap_cons, hfilter]
    exact ((ih hnodup hothers).append_left _).trans (List.filter_append_perm _ xs)

theorem eraseReps_loop_eq [BEq α] (x : α) (xs acc : List α) :
    List.eraseRepsBy.loop (· == ·) x xs acc = acc.reverse ++ (x :: xs).eraseReps := by
  have hstart (y : α) (ys : List α) :
      (y :: ys).eraseReps = List.eraseRepsBy.loop (· == ·) y ys [] := rfl
  rw [hstart]
  induction xs generalizing x acc with
  | nil => simp [List.eraseRepsBy.loop]
  | cons y xs ih =>
    simp only [List.eraseRepsBy.loop]
    cases x == y with
    | true => exact ih x acc
    | false => rw [ih y (x :: acc), ih y [x]]; simp

theorem eraseReps_cons_cons [BEq α] (x y : α) (xs : List α) : (x :: y :: xs).eraseReps =
    if x == y then (x :: xs).eraseReps else x :: (y :: xs).eraseReps := by
  have hstep : (x :: y :: xs).eraseReps =
      List.eraseRepsBy.loop (· == ·) x (y :: xs) [] := rfl
  rw [hstep, List.eraseRepsBy.loop]
  cases x == y with
  | true => exact eraseReps_loop_eq x xs []
  | false => exact eraseReps_loop_eq y xs [x]

theorem mem_eraseReps_iff [BEq α] [LawfulBEq α] {x : α} {xs : List α} :
    x ∈ xs.eraseReps ↔ x ∈ xs := by
  cases xs with
  | nil => exact Iff.rfl
  | cons y xs =>
    induction xs generalizing y with
    | nil => exact Iff.rfl
    | cons z xs ih =>
      rw [eraseReps_cons_cons]
      split
      · next hyz => rw [ih, eq_of_beq hyz]; simp
      · rw [List.mem_cons, ih, List.mem_cons (a := x) (b := y)]

/-- Neighbours in a sorted list that are not equal are in strict order. -/
theorem pairwise_eraseReps {xs : List Int} (h : xs.Pairwise fun a b => b ≤ a) :
    xs.eraseReps.Pairwise fun a b => b < a := by
  cases xs with
  | nil => exact .nil
  | cons x xs =>
    induction xs generalizing x with
    | nil => exact List.pairwise_singleton _ x
    | cons y xs ih =>
      rw [eraseReps_cons_cons]
      obtain ⟨hx, hxs⟩ := List.pairwise_cons.mp h
      split
      · next hxy =>
        refine ih x (List.pairwise_cons.mpr ⟨fun z hz => hx z (List.mem_cons_of_mem y hz), ?_⟩)
        exact (List.pairwise_cons.mp hxs).2
      · next hxy =>
        refine List.pairwise_cons.mpr ⟨fun z hz => ?_, ih y hxs⟩
        have hyx := hx y List.mem_cons_self
        have hne : x ≠ y := by simpa using hxy
        have hzy : z ≤ y := by
          rcases List.mem_cons.mp (mem_eraseReps_iff.mp hz) with rfl | hz
          · exact Int.le_refl z
          · exact (List.pairwise_cons.mp hxs).1 z hz
        omega

end ScriptAudit
