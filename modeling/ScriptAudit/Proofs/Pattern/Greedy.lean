import ScriptAudit.Proofs.Pattern.Literal
import ScriptAudit.Proofs.Pattern.Twins
import ScriptAudit.Proofs.Text.Runs

/-! # Repetitions that read as much as they can

A greedy repetition of a set reads the longest run of members of the set and gives characters back
until what follows can be read. So it stops at the last place of the run at which going on has an
outcome, and if that can only be the end of the run, there. Main statements:
`run_star_set_of_shut`, `run_plus_set_of_shut` and `run_plus_set_eq_some_iff`.
-/
namespace ScriptAudit.Pattern

open Cursor (ofIndex)

variable {k : Continuation} {cs : CharSet} {text : List Char} {i n : Nat} {o : Outcome}

/-- The outcome of going on at the last of the places from `i` to `i + n` at which there is one. -/
def furthest (k : Continuation) (text : List Char) : Nat → Nat → Option Outcome
  | i, 0 => k (ofIndex text i)
  | i, n + 1 => (furthest k text (i + 1) n).or (k (ofIndex text i))

theorem furthest_eq_none_iff : furthest k text i n = none ↔
    ∀ j, i ≤ j → j ≤ i + n → k (ofIndex text j) = none := by
  induction n generalizing i with
  | zero =>
    constructor
    · intro h j hij hji
      rwa [Nat.le_antisymm hji hij]
    · exact fun h => h i (Nat.le_refl i) (Nat.le_refl i)
  | succ n ih =>
    rw [furthest, Option.or_eq_none_iff, ih]
    constructor
    · rintro ⟨hlater, hhere⟩ j hij hj
      rcases Nat.eq_or_lt_of_le hij with rfl | hlt
      · exact hhere
      · exact hlater j hlt (by omega)
    · exact fun h => ⟨fun j hij hj => h j (by omega) (by omega), h i (by omega) (by omega)⟩

theorem furthest_eq_some_iff : furthest k text i n = some o ↔
    ∃ j, i ≤ j ∧ j ≤ i + n ∧ k (ofIndex text j) = some o ∧
      ∀ j', j < j' → j' ≤ i + n → k (ofIndex text j') = none := by
  induction n generalizing i with
  | zero =>
    constructor
    · exact fun h => ⟨i, Nat.le_refl i, Nat.le_refl i, h, fun j' _ _ => by omega⟩
    · rintro ⟨j, hij, hji, h, _⟩
      rwa [Nat.le_antisymm hij hji]
  | succ n ih =>
    rw [furthest, Option.or_eq_some_iff, ih, furthest_eq_none_iff]
    constructor
    · rintro (⟨j, hij, hj, h, hlater⟩ | ⟨hlater, h⟩)
      · exact ⟨j, by omega, by omega, h, fun j' hjj hj' => hlater j' hjj (by omega)⟩
      · exact ⟨i, by omega, by omega, h, fun j' hij hj' => hlater j' hij (by omega)⟩
    · rintro ⟨j, hij, hj, h, hlater⟩
      rcases Nat.eq_or_lt_of_le hij with rfl | hlt
      · exact Or.inr ⟨fun j' hij hj' => hlater j' hij (by omega), h⟩
      · exact Or.inl ⟨j, hlt, by omega, h, fun j' hjj hj' => hlater j' hjj (by omega)⟩

/-- Going on that leads nowhere before the last place leads on from there or not at all. -/
theorem furthest_of_shut (h : ∀ j, i ≤ j → j < i + n → k (ofIndex text j) = none) :
    furthest k text i n = k (ofIndex text (i + n)) := by
  induction n generalizing i with
  | zero => rfl
  | succ n ih =>
    rw [furthest, h i (by omega) (by omega), ih fun j hij hj => h j (by omega) (by omega),
      Nat.add_right_comm, Nat.add_assoc]
    cases k (ofIndex text (i + (n + 1))) <;> rfl

theorem prefer_true (more on : Option Outcome) : prefer true more on = more.or on := by
  cases more <;> rfl

theorem rounds_set_eq_furthest : rounds true (set cs) k (ofIndex text i) =
    furthest k text i ((text.drop i).takeWhile cs.contains).length := by
  induction hrest : text.drop i generalizing i with
  | nil => exact rounds_set_nil hrest
  | cons c rest ih =>
    have hnext : text.drop (i + 1) = rest := by rw [← List.drop_drop, hrest]; rfl
    have hplace : (ofIndex text i).rest = c :: rest := hrest
    rw [rounds_set_cons hplace, Cursor.advance_ofIndex hrest, ih hnext, prefer_true]
    cases hc : cs.contains c with
    | true =>
      rw [List.takeWhile_cons_of_pos hc]
      rfl
    | false =>
      rw [List.takeWhile_cons_of_neg (by simp [hc])]
      rfl

theorem run_star_set (k : Continuation) (cs : CharSet) (s : Cursor) :
    ((set cs).star true).run k s = rounds true (set cs) k s := by
  have hrun : ((set cs).star true).run k s = ((plus true (set cs)).run k s <|> k s) := rfl
  rw [hrun, run_plus_set]
  cases hrest : s.rest with
  | nil =>
    rw [rounds_set_nil hrest]
    exact prefer_none_left true (k s)
  | cons c rest =>
    rw [rounds_set_cons hrest]
    rfl

theorem run_star_set_of_shut
    (h : ∀ j, i ≤ j → j < Text.runEnd cs.contains text i → k (ofIndex text j) = none) :
    ((set cs).star true).run k (ofIndex text i) =
      k (ofIndex text (Text.runEnd cs.contains text i)) := by
  rw [run_star_set, rounds_set_eq_furthest, furthest_of_shut h]
  rfl

theorem run_plus_set_ofIndex (k : Continuation) (cs : CharSet) (text : List Char) (i : Nat) :
    (plus true (set cs)).run k (ofIndex text i) =
      if i < Text.runEnd cs.contains text i then rounds true (set cs) k (ofIndex text (i + 1))
      else none := by
  rw [run_plus_set]
  cases hrest : text.drop i with
  | nil => simp [Text.runEnd, hrest]
  | cons c rest =>
    rw [Cursor.rest_ofIndex, hrest]
    dsimp only
    rw [Cursor.advance_ofIndex hrest]
    cases hc : cs.contains c <;> simp [Text.runEnd, hrest, hc]

/-- The run from the second character on ends where it ends from the first one on. -/
theorem runEnd_succ_of_lt {test : Char → Bool} (h : i < Text.runEnd test text i) :
    Text.runEnd test text (i + 1) = Text.runEnd test text i := by
  obtain ⟨c, hc, htest⟩ := (Text.covers_runEnd test text i).passes i (Nat.le_refl i) h
  exact (Text.runEnd_of_passes hc htest).symm

theorem run_plus_set_of_shut
    (h : ∀ j, i < j → j < Text.runEnd cs.contains text i → k (ofIndex text j) = none) :
    (plus true (set cs)).run k (ofIndex text i) =
      if i < Text.runEnd cs.contains text i then k (ofIndex text (Text.runEnd cs.contains text i))
      else none := by
  rw [run_plus_set_ofIndex]
  split
  · next hlt =>
    rw [← runEnd_succ_of_lt hlt] at h ⊢
    rw [← run_star_set]
    exact run_star_set_of_shut h
  · rfl

/-- A greedy repetition stops at the last place of the run from which it goes on. -/
theorem run_plus_set_eq_some_iff : (plus true (set cs)).run k (ofIndex text i) = some o ↔
    ∃ j, i < j ∧ j ≤ Text.runEnd cs.contains text i ∧ k (ofIndex text j) = some o ∧
      ∀ j', j < j' → j' ≤ Text.runEnd cs.contains text i → k (ofIndex text j') = none := by
  rw [run_plus_set_ofIndex]
  split
  · next hlt =>
    rw [rounds_set_eq_furthest, furthest_eq_some_iff, ← runEnd_succ_of_lt hlt]
    rfl
  · next hle =>
    refine iff_of_false nofun ?_
    rintro ⟨j, hij, hj, _⟩
    omega

end ScriptAudit.Pattern
