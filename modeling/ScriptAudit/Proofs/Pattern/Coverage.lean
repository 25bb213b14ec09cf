import Mathlib.Data.List.Pairwise
import ScriptAudit.Proofs.Pattern.Matches

/-! # Which occurrences a search takes

A pattern occurs in a text wherever it can be read. A search takes the occurrences that do not
overlap one taken before, and drops those of them that span too many lines only afterwards. Main
statements: `search_eq`, `mem_taken_or_covered`, by which an occurrence that is not taken starts
inside one that is, and `Separate.taken_eq`.
-/
namespace ScriptAudit

namespace Occurrence

/-- The number of lines of the text that the occurrence is spread over. -/
def lineSpan (m : Occurrence) (text : List Char) : Nat :=
  ((text.drop m.first).take (m.stop - m.first)).count '\n' + 1

/-- Whether the occurrences have a character in common. -/
def Overlaps (m n : Occurrence) : Prop := m.first < n.stop ∧ n.first < m.stop

/-- Whether one occurrence starts inside the other one, and behind its start. -/
def StartsInside (m n : Occurrence) : Prop := n.first < m.first ∧ m.first < n.stop

instance (m n : Occurrence) : Decidable (m.Overlaps n) := inferInstanceAs (Decidable (_ ∧ _))

instance (m n : Occurrence) : Decidable (m.StartsInside n) := inferInstanceAs (Decidable (_ ∧ _))

end Occurrence

/-- The matches behind `lastEnd` start there or later. -/
theorem le_index_of_mem_takeFrom {outcomes : List (Cursor × Option Outcome)} {lastEnd : Nat}
    {s : Cursor} {o : Outcome} (h : (s, o) ∈ takeFrom (some lastEnd) outcomes) :
    lastEnd ≤ s.index := by
  induction outcomes generalizing lastEnd with
  | nil => cases h
  | cons head outcomes ih =>
    obtain ⟨t, found⟩ := head
    cases found with
    | none => exact ih h
    | some r =>
      unfold takeFrom at h
      by_cases hf : follows (some lastEnd) t r = true
      · simp only [hf, if_true] at h
        obtain ⟨hle, hlt⟩ := follows_some_iff.mp hf
        rcases List.mem_cons.mp h with h | h
        · cases h
          exact hle
        · have hstop := ih h
          omega
      · simp only [hf, if_false, Bool.false_eq_true] at h
        exact ih h

theorem pairwise_takeFrom (outcomes : List (Cursor × Option Outcome)) (lastEnd : Option Nat) :
    (takeFrom lastEnd outcomes).Pairwise fun m n => m.2.stop ≤ n.1.index := by
  induction outcomes generalizing lastEnd with
  | nil => exact List.Pairwise.nil
  | cons head outcomes ih =>
    obtain ⟨s, found⟩ := head
    cases found with
    | none => exact ih lastEnd
    | some o =>
      unfold takeFrom
      by_cases hf : follows lastEnd s o = true
      · simp only [hf, if_true]
        exact List.pairwise_cons.mpr ⟨fun _ hn => le_index_of_mem_takeFrom hn, ih _⟩
      · simp only [hf, if_false, Bool.false_eq_true]
        exact ih lastEnd

/-- An outcome that reads something is taken, or its place lies inside a match taken before. -/
theorem mem_takeFrom_or_covered {outcomes : List (Cursor × Option Outcome)}
    (hsorted : outcomes.Pairwise fun a b => a.1.index < b.1.index) {lastEnd : Option Nat}
    {s : Cursor} {o : Outcome} (hmem : (s, some o) ∈ outcomes) (hreads : s.index < o.stop)
    (hlast : ∀ e ∈ lastEnd, e ≤ s.index) :
    (s, o) ∈ takeFrom lastEnd outcomes ∨
      ∃ m ∈ takeFrom lastEnd outcomes, m.1.index < s.index ∧ s.index < m.2.stop := by
  induction outcomes generalizing lastEnd with
  | nil => cases hmem
  | cons head outcomes ih =>
    obtain ⟨t, found⟩ := head
    obtain ⟨hhead, htail⟩ := List.pairwise_cons.mp hsorted
    unfold takeFrom
    rcases List.mem_cons.mp hmem with h | h
    · cases h
      have hf : follows lastEnd s o = true := by
        cases lastEnd with
        | none => rfl
        | some e =>
          have hle := hlast e rfl
          exact follows_some_iff.mpr ⟨hle, by omega⟩
      simp only [hf, if_true]
      exact Or.inl List.mem_cons_self
    · have hlt : t.index < s.index := hhead _ h
      cases found with
      | none => exact ih htail h hlast
      | some r =>
        by_cases hf : follows lastEnd t r = true
        · simp only [hf, if_true]
          by_cases hstop : r.stop ≤ s.index
          · have hlast : ∀ e ∈ some r.stop, e ≤ s.index := fun e he => Option.some.inj he ▸ hstop
            rcases ih htail h hlast with h | ⟨m, hm, hcover⟩
            · exact Or.inl (List.mem_cons_of_mem _ h)
            · exact Or.inr ⟨m, List.mem_cons_of_mem _ hm, hcover⟩
          · exact Or.inr ⟨(t, r), List.mem_cons_self, hlt, Nat.lt_of_not_le hstop⟩
        · simp only [hf, if_false, Bool.false_eq_true]
          exact ih htail h hlast

namespace Pattern

/-- Whether the pattern, tried at the start of the occurrence, is read as it says. -/
def OccursAs (p : Pattern) (text : List Char) (m : Occurrence) : Prop :=
  m.first ≤ text.length ∧ p.run Cursor.finish (.ofIndex text m.first) = some m.outcome

instance (p : Pattern) (text : List Char) (m : Occurrence) : Decidable (p.OccursAs text m) :=
  inferInstanceAs (Decidable (_ ∧ _))

/-- The match that a search makes of an occurrence. -/
def matchAs (p : Pattern) (text : String) (lines : LineIndex) (m : Occurrence) : Match :=
  p.matchOf lines (.ofIndex text.toList m.first) m.outcome

variable {p : Pattern} {text : List Char} {m n : Occurrence}

theorem mem_outcomes_iff {s : Cursor} {found : Option Outcome} :
    (s, found) ∈ p.outcomes text ↔ s.index ≤ text.length ∧ s = .ofIndex text s.index ∧
      found = p.run Cursor.finish (.ofIndex text s.index) := by
  rw [outcomes_eq_map_range, List.mem_map]
  constructor
  · rintro ⟨i, hi, h⟩
    cases h
    exact ⟨Nat.le_of_lt_succ (List.mem_range.mp hi), rfl, rfl⟩
  · rintro ⟨hle, hs, hfound⟩
    exact ⟨s.index, List.mem_range.mpr (Nat.lt_succ_of_le hle), by rw [← hs, hfound, ← hs]⟩

theorem occursAs_of_mem_taken (h : m ∈ p.taken text) : p.OccursAs text m := by
  obtain ⟨⟨s, o⟩, hm, rfl⟩ := List.mem_map.mp h
  rw [takeMatches_eq] at hm
  obtain ⟨hle, _, hrun⟩ := mem_outcomes_iff.mp (mem_of_mem_takeFrom hm)
  exact ⟨hle, hrun.symm⟩

theorem pairwise_taken (p : Pattern) (text : List Char) :
    (p.taken text).Pairwise fun m n => m.stop ≤ n.first := by
  rw [taken, takeMatches_eq, List.pairwise_map]
  exact pairwise_takeFrom _ none

/-- Two occurrences that are taken are the same, or one ends before the other one starts. -/
theorem disjoint_of_mem_taken (hm : m ∈ p.taken text) (hn : n ∈ p.taken text) :
    m = n ∨ m.stop ≤ n.first ∨ n.stop ≤ m.first := by
  by_cases h : m = n
  · exact Or.inl h
  · have hsymm : Std.Symm fun m n : Occurrence => m.stop ≤ n.first ∨ n.stop ≤ m.first :=
      ⟨fun _ _ => Or.symm⟩
    have hpair : (p.taken text).Pairwise fun m n => m.stop ≤ n.first ∨ n.stop ≤ m.first :=
      (pairwise_taken p text).imp Or.inl
    exact Or.inr (hpair.forall hm hn h)

theorem mem_taken_or_covered (h : p.OccursAs text m) (hreads : m.first < m.stop) :
    m ∈ p.taken text ∨ ∃ n ∈ p.taken text, m.StartsInside n := by
  obtain ⟨hle, hrun⟩ := h
  have hmem : (Cursor.ofIndex text m.first, some m.outcome) ∈ p.outcomes text :=
    mem_outcomes_iff.mpr ⟨hle, rfl, hrun.symm⟩
  have hsorted : (p.outcomes text).Pairwise fun a b => a.1.index < b.1.index := by
    rw [outcomes_eq_map_range, List.pairwise_map]
    exact List.pairwise_lt_range
  rw [taken, takeMatches_eq]
  have hlast : ∀ e ∈ (none : Option Nat), e ≤ m.first := nofun
  rcases mem_takeFrom_or_covered hsorted hmem hreads hlast with h | ⟨n, hn, h⟩
  · exact Or.inl (List.mem_map.mpr ⟨_, h, rfl⟩)
  · exact Or.inr ⟨_, List.mem_map_of_mem hn, h⟩

/-- No occurrence of the pattern in the text runs into a later one. -/
def Separate (p : Pattern) (text : List Char) : Prop :=
  ∀ m n, p.OccursAs text m → p.OccursAs text n → m.first < n.first →
    m.stop ≤ n.first ∧ m.stop < n.stop

/-- A search takes all occurrences if they do not run into each other. -/
theorem Separate.taken_eq (h : p.Separate text) :
    p.taken text = (List.range (text.length + 1)).filterMap fun i =>
      (p.run Cursor.finish (.ofIndex text i)).map (Occurrence.mk i) := by
  rw [taken, takeMatches_eq, outcomes_eq_map_range, takeFrom_eq_filterMap]
  · rw [List.filterMap_map, List.map_filterMap]
    congr 1
    funext i
    simp only [Function.comp_apply, Option.map_map]
    rfl
  · rw [List.pairwise_map]
    refine List.pairwise_lt_range.imp_of_mem ?_
    intro i j hi hj hij o r ho hr
    have hi := Nat.le_of_lt_succ (List.mem_range.mp hi)
    have hj := Nat.le_of_lt_succ (List.mem_range.mp hj)
    exact follows_some_iff.mpr (h ⟨i, o⟩ ⟨j, r⟩ ⟨hi, ho⟩ ⟨hj, hr⟩ hij)
  · intro b _ r _
    rfl

theorem lineSpan_matchAs (p : Pattern) (text : String) (lines : LineIndex) (m : Occurrence) :
    lineSpan (p.matchAs text lines m).text = m.lineSpan text.toList := by
  simp [matchAs, matchOf, Cursor.slice, lineSpan, Occurrence.lineSpan, Occurrence.stop]

/-- A search makes matches of the occurrences that it takes and that span few enough lines. -/
theorem search_eq (p : Pattern) (text : String) (lines : LineIndex) (maxLines : Nat) :
    p.search text lines maxLines =
      ((p.taken text.toList).filter fun m => m.lineSpan text.toList ≤ maxLines).map
        (p.matchAs text lines) := by
  have hmatches : (takeMatches (p.outcomes text.toList)).map (fun x => p.matchOf lines x.1 x.2) =
      (p.taken text.toList).map (p.matchAs text lines) := by
    rw [taken, List.map_map]
    apply List.map_congr_left
    rintro ⟨s, o⟩ h
    rw [takeMatches_eq] at h
    obtain ⟨_, hs, _⟩ := mem_outcomes_iff.mp (mem_of_mem_takeFrom h)
    simp only [Function.comp_apply, matchAs, ← hs]
  unfold search
  change ((takeMatches _).map fun x => p.matchOf lines x.1 x.2).filter _ = _
  rw [hmatches, List.filter_map]
  congr 2
  funext m
  simp only [Function.comp_apply, lineSpan_matchAs]

end Pattern
end ScriptAudit
