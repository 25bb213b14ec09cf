import ScriptAudit.Text.Split

/-! # Joining and splitting

Texts that are joined with a separator come apart again into the pieces of each. Main statements:
`split_intercalate`, and `flatMap_split_eq_self_iff`, by which the texts themselves come back
exactly when none of them holds the separator.
-/
namespace ScriptAudit.Text
variable {α : Type} [BEq α] [LawfulBEq α]

omit [LawfulBEq α] in
@[simp] theorem split_nil (sep : α) : split sep ([] : List α) = [[]] := rfl

omit [LawfulBEq α] in
theorem split_ne_nil (sep : α) (xs : List α) : split sep xs ≠ [] := by
  cases xs with
  | nil => simp
  | cons x xs =>
    simp only [split, List.foldr_cons]
    split
    · simp
    · split <;> simp

theorem split_cons_self (sep : α) (xs : List α) : split sep (sep :: xs) = [] :: split sep xs := by
  simp [split]

omit [LawfulBEq α] in
theorem split_cons_of_ne {sep x : α} (h : (x == sep) = false) (xs : List α) :
    ∃ piece others, split sep xs = piece :: others ∧ split sep (x :: xs) = (x :: piece) :: others := by
  cases hs : split sep xs with
  | nil => exact absurd hs (split_ne_nil sep xs)
  | cons piece others =>
    refine ⟨piece, others, rfl, ?_⟩
    unfold split at hs ⊢
    rw [List.foldr_cons, hs]
    simp [h]

theorem split_append_separator (sep : α) (xs ys : List α) :
    split sep (xs ++ sep :: ys) = split sep xs ++ split sep ys := by
  induction xs with
  | nil => exact split_cons_self sep ys
  | cons x xs ih =>
    cases h : x == sep with
    | true =>
      rw [eq_of_beq h, List.cons_append, split_cons_self, split_cons_self, ih, List.cons_append]
    | false =>
      obtain ⟨piece, others, hs, hx⟩ := split_cons_of_ne h xs
      obtain ⟨piece', others', hs', hx'⟩ := split_cons_of_ne h (xs ++ sep :: ys)
      rw [ih, hs, List.cons_append] at hs'
      obtain ⟨rfl, rfl⟩ := List.cons.inj hs'
      rw [List.cons_append, hx, hx', List.cons_append]

theorem length_split (sep : α) (xs : List α) : (split sep xs).length = xs.count sep + 1 := by
  induction xs with
  | nil => rfl
  | cons x xs ih =>
    rw [List.count_cons]
    cases h : x == sep with
    | true =>
      rw [eq_of_beq h, split_cons_self, List.length_cons, ih]
      rfl
    | false =>
      obtain ⟨piece, others, hs, hx⟩ := split_cons_of_ne h xs
      rw [hs] at ih
      rw [hx]
      simpa using ih

theorem split_of_not_mem {sep : α} {xs : List α} (h : sep ∉ xs) : split sep xs = [xs] := by
  induction xs with
  | nil => rfl
  | cons x xs ih =>
    rw [List.mem_cons, not_or] at h
    have hx : (x == sep) = false := beq_false_of_ne fun hx => h.1 hx.symm
    obtain ⟨piece, others, hs, hsx⟩ := split_cons_of_ne hx xs
    rw [ih h.2] at hs
    obtain ⟨rfl, rfl⟩ := List.cons.inj hs
    exact hsx

/-- Cuts a list at its first separator, and what follows again, up to a list without any. -/
@[elab_as_elim]
theorem pieceInduction (sep : α) {motive : List α → Prop}
    (last : ∀ piece, sep ∉ piece → motive piece)
    (append : ∀ piece rest, sep ∉ piece → motive rest → motive (piece ++ sep :: rest))
    (xs : List α) : motive xs := by
  induction hlength : xs.length using Nat.strongRecOn generalizing xs with
  | ind n ih =>
    by_cases hmem : sep ∈ xs
    · obtain ⟨piece, rest, rfl, hpiece⟩ := List.eq_append_cons_of_mem hmem
      refine append piece rest hpiece (ih rest.length ?_ rest rfl)
      rw [← hlength, List.length_append, List.length_cons]
      omega
    · exact last xs hmem

theorem mem_of_mem_split {sep x : α} {xs piece : List α} (h : piece ∈ split sep xs)
    (hx : x ∈ piece) : x ∈ xs := by
  induction xs generalizing piece with
  | nil =>
    rw [List.mem_singleton.mp h] at hx
    cases hx
  | cons y xs ih =>
    cases hy : y == sep with
    | true =>
      rw [eq_of_beq hy, split_cons_self] at h
      rcases List.mem_cons.mp h with rfl | h
      · cases hx
      · exact List.mem_cons_of_mem _ (ih h hx)
    | false =>
      obtain ⟨first, others, hs, hcons⟩ := split_cons_of_ne hy xs
      rw [hcons] at h
      rcases List.mem_cons.mp h with rfl | h
      · rcases List.mem_cons.mp hx with rfl | hx
        · exact List.mem_cons_self
        · exact List.mem_cons_of_mem _ (ih (hs ▸ List.mem_cons_self) hx)
      · exact List.mem_cons_of_mem _ (ih (hs ▸ List.mem_cons_of_mem _ h) hx)

theorem split_intercalate (sep : α) {ls : List (List α)} (h : ls ≠ []) :
    split sep ([sep].intercalate ls) = ls.flatMap (split sep) := by
  induction ls with
  | nil => exact absurd rfl h
  | cons l ls ih =>
    cases ls with
    | nil => simp
    | cons l' ls =>
      rw [List.intercalate_cons_cons, List.append_assoc, List.singleton_append,
        split_append_separator, ih (List.cons_ne_nil _ _)]
      rfl

/-- Pieces are the texts themselves when there are no more of them than texts. -/
theorem flatMap_split_eq_self_iff (sep : α) (ls : List (List α)) :
    ls.flatMap (split sep) = ls ↔ ∀ l ∈ ls, sep ∉ l := by
  constructor
  · intro h l hl hmem
    have hlen : ∀ ms : List (List α), ms.length ≤ (ms.flatMap (split sep)).length := by
      intro ms
      induction ms with
      | nil => exact Nat.le_refl _
      | cons m ms ih =>
        have hm := length_split sep m
        rw [List.flatMap_cons, List.length_append, List.length_cons]
        omega
    obtain ⟨before, behind, rfl⟩ := List.append_of_mem hl
    have hcount := List.count_pos_iff.mpr hmem
    have hsplit := length_split sep l
    have hbefore := hlen before
    have hbehind := hlen behind
    have hall := congrArg List.length h
    rw [List.flatMap_append, List.flatMap_cons] at hall
    simp only [List.length_append, List.length_cons] at hall
    omega
  · intro h
    induction ls with
    | nil => rfl
    | cons l ls ih =>
      rw [List.flatMap_cons, split_of_not_mem (h l List.mem_cons_self),
        ih fun m hm => h m (List.mem_cons_of_mem _ hm), List.singleton_append]

end ScriptAudit.Text
