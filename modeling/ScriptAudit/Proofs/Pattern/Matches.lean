import ScriptAudit.Pattern.Search
import ScriptAudit.Proofs.Pattern.Places
import ScriptAudit.Proofs.Pattern.Reading

/-! # The matches of a search

The matches of a pattern are taken from the outcomes at successive places, one after the other.
Main statements: `exists_run_of_mem_search`, by which every match stems from an outcome, and
`takeFrom_eq_filterMap`, by which outcomes that do not overlap are all taken.
-/
namespace ScriptAudit

theorem follows_some_iff {stop : Nat} {s : Cursor} {o : Outcome} :
    follows (some stop) s o = true ↔ stop ≤ s.index ∧ stop < o.stop := by
  simp [follows]

/-- The matches among the outcomes at successive places behind a match that ended at `lastEnd`. -/
def takeFrom (lastEnd : Option Nat) : List (Cursor × Option Outcome) → List (Cursor × Outcome)
  | [] => []
  | (s, found) :: outcomes =>
    match found with
    | none => takeFrom lastEnd outcomes
    | some o =>
      if follows lastEnd s o then (s, o) :: takeFrom (some o.stop) outcomes
      else takeFrom lastEnd outcomes

theorem foldl_take (outcomes : List (Cursor × Option Outcome)) (lastEnd : Option Nat)
    (taken : List (Cursor × Outcome)) :
    (outcomes.foldl (fun (lastEnd, taken) (s, found) =>
      match found with
      | some o => if follows lastEnd s o then (some o.stop, (s, o) :: taken) else (lastEnd, taken)
      | none => (lastEnd, taken)) (lastEnd, taken)).2.reverse =
      taken.reverse ++ takeFrom lastEnd outcomes := by
  induction outcomes generalizing lastEnd taken with
  | nil => simp [takeFrom]
  | cons head outcomes ih =>
    obtain ⟨s, found⟩ := head
    cases found with
    | none => exact ih lastEnd taken
    | some o =>
      by_cases h : follows lastEnd s o = true
      · simp only [List.foldl_cons, h, if_true, ih, takeFrom, List.reverse_cons,
          List.append_assoc, List.singleton_append]
      · simp only [List.foldl_cons, h, if_false, ih, takeFrom, Bool.false_eq_true]

theorem takeMatches_eq (outcomes : List (Cursor × Option Outcome)) :
    takeMatches outcomes = takeFrom none outcomes :=
  foldl_take outcomes none []

theorem mem_of_mem_takeFrom {outcomes : List (Cursor × Option Outcome)} {lastEnd : Option Nat}
    {s : Cursor} {o : Outcome} (h : (s, o) ∈ takeFrom lastEnd outcomes) :
    (s, some o) ∈ outcomes := by
  induction outcomes generalizing lastEnd with
  | nil => cases h
  | cons head outcomes ih =>
    obtain ⟨t, found⟩ := head
    cases found with
    | none => exact List.mem_cons_of_mem _ (ih h)
    | some r =>
      unfold takeFrom at h
      by_cases hf : follows lastEnd t r = true
      · simp only [hf, if_true] at h
        rcases List.mem_cons.mp h with h | h
        · cases h
          exact List.mem_cons_self
        · exact List.mem_cons_of_mem _ (ih h)
      · simp only [hf, if_false, Bool.false_eq_true] at h
        exact List.mem_cons_of_mem _ (ih h)

/-- The matches are taken in the order of their places. -/
theorem sublist_takeFrom (outcomes : List (Cursor × Option Outcome)) (lastEnd : Option Nat) :
    ((takeFrom lastEnd outcomes).map Prod.fst).Sublist (outcomes.map Prod.fst) := by
  induction outcomes generalizing lastEnd with
  | nil => exact List.Sublist.refl _
  | cons head outcomes ih =>
    obtain ⟨s, found⟩ := head
    cases found with
    | none => exact (ih lastEnd).cons s
    | some o =>
      unfold takeFrom
      by_cases hf : follows lastEnd s o = true
      · simp only [hf, if_true]
        exact (ih _).cons_cons s
      · simp only [hf, if_false, Bool.false_eq_true]
        exact (ih lastEnd).cons s

/-- Outcomes that start behind the stops of all earlier ones and stop later are all taken. -/
theorem takeFrom_eq_filterMap {outcomes : List (Cursor × Option Outcome)} {lastEnd : Option Nat}
    (hpair : outcomes.Pairwise fun a b => ∀ o r, a.2 = some o → b.2 = some r →
      follows (some o.stop) b.1 r = true)
    (hlast : ∀ b ∈ outcomes, ∀ r, b.2 = some r → follows lastEnd b.1 r = true) :
    takeFrom lastEnd outcomes = outcomes.filterMap fun b => b.2.map (b.1, ·) := by
  induction outcomes generalizing lastEnd with
  | nil => rfl
  | cons head outcomes ih =>
    obtain ⟨s, found⟩ := head
    obtain ⟨hhead, htail⟩ := List.pairwise_cons.mp hpair
    cases found with
    | none => exact ih htail fun b hb => hlast b (List.mem_cons_of_mem _ hb)
    | some o =>
      have hf : follows lastEnd s o = true := hlast _ List.mem_cons_self o rfl
      have hrest : takeFrom (some o.stop) outcomes = _ :=
        ih htail fun b hb r hr => hhead b hb o r rfl hr
      simp only [takeFrom, hf, if_true, hrest, List.filterMap_cons, Option.map_some]

namespace Pattern

/-- A match spans few enough lines and stems from the outcome at some place of the text. -/
theorem exists_run_of_mem_search {p : Pattern} {text : String} {lines : LineIndex}
    {maxLines : Nat} {m : Match} (h : m ∈ p.search text lines maxLines) :
    lineSpan m.text ≤ maxLines ∧ ∃ s ∈ Cursor.places text.toList, ∃ o,
      p.run Cursor.finish s = some o ∧ m = p.matchOf lines s o := by
  obtain ⟨hm, hspan⟩ := List.mem_filter.mp h
  obtain ⟨⟨s, o⟩, hso, rfl⟩ := List.mem_map.mp hm
  rw [takeMatches_eq, outcomes_eq] at hso
  obtain ⟨t, ht, he⟩ := List.mem_map.mp (mem_of_mem_takeFrom hso)
  obtain ⟨rfl, hrun⟩ := Prod.mk.inj he
  exact ⟨of_decide_eq_true hspan, t, ht, o, hrun, rfl⟩

end Pattern
end ScriptAudit
