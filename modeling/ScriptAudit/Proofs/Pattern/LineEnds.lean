import ScriptAudit.Proofs.Pattern.Length
import ScriptAudit.Proofs.Pattern.Reindexed
import ScriptAudit.Proofs.Pattern.Twins

/-! # Searches in converted texts

A search in a converted text takes the twins of the occurrences that it takes in the text itself,
and the texts of the matches and of their groups are the converted ones. Main statements:
`taken_withReturns`, `search_converted` and `isFoundIn_converted`.
-/
namespace ScriptAudit

open Cursor (ofIndex twin between)

namespace Outcome

variable {text : List Char}

theorem moved_eq_reindex (o : Outcome) : o.moved text = o.reindex (Text.moved text) := by
  have hmark : Mark.moved text = Mark.reindex (Text.moved text) := by
    funext m
    cases m <;> rfl
  rw [moved, reindex, hmark]

theorem group_moved (o : Outcome) (n : Nat) : (o.moved text).group n =
    (o.group n).map (Prod.map (Text.moved text) (Text.moved text)) := by
  rw [moved_eq_reindex, group_reindex]

/-- The opening edge of a group is among the marks. -/
theorem exists_mem_of_foldl {f : Option Nat → Mark → Option Nat}
    (hf : ∀ found m i, f found m = some i → m.index = i ∨ found = some i) {ms : List Mark}
    {found : Option Nat} {i : Nat} (h : ms.foldl f found = some i) :
    found = some i ∨ ∃ m ∈ ms, m.index = i := by
  induction ms generalizing found with
  | nil => exact Or.inl h
  | cons m ms ih =>
    rcases ih h with h | ⟨n, hn, hi⟩
    · rcases hf found m i h with h | h
      · exact Or.inr ⟨m, List.mem_cons_self, h⟩
      · exact Or.inl h
    · exact Or.inr ⟨n, List.mem_cons_of_mem _ hn, hi⟩

theorem le_of_group {o : Outcome} {first n : Nat} (ho : ∀ m ∈ o.marks, first ≤ m.index)
    {span : Nat × Nat} (h : o.group n = some span) : first ≤ span.1 := by
  unfold group at h
  split at h
  · next i j hi hj =>
    obtain rfl := Option.some.inj h
    have hmem : ∃ m ∈ o.marks, m.index = i := by
      refine (exists_mem_of_foldl (fun found m i => ?_) hi).resolve_left nofun
      cases m with
      | opened g k =>
        by_cases hg : g = n
        · simpa [Mark.index, hg] using Or.inl
        · simpa [hg] using Or.inr
      | closed g k => exact Or.inr
    obtain ⟨m, hm, rfl⟩ := hmem
    exact ho m hm
  · cases h

end Outcome

theorem follows_moved (text : List Char) (lastEnd : Option Nat) (i : Nat) (o : Outcome) :
    follows (lastEnd.map (Text.moved text)) (twin text i) (o.moved text) =
      follows lastEnd (ofIndex text i) o := by
  rw [Outcome.moved_eq_reindex]
  exact follows_reindex (Text.strictMono_moved text) lastEnd (Cursor.index_twin text i) o

theorem any_isSome_eq (outcomes : List (Cursor × Option Outcome)) :
    outcomes.any (·.2.isSome) = !(takeFrom none outcomes).isEmpty := by
  induction outcomes with
  | nil => rfl
  | cons head outcomes ih =>
    obtain ⟨s, found⟩ := head
    cases found with
    | none => exact ih
    | some o => rfl

namespace Occurrence

def moved (text : List Char) (m : Occurrence) : Occurrence :=
  ⟨Text.moved text m.first, m.outcome.moved text⟩

def reindex (f : Nat → Nat) (m : Occurrence) : Occurrence := ⟨f m.first, m.outcome.reindex f⟩

theorem moved_eq_reindex (text : List Char) (m : Occurrence) :
    m.moved text = m.reindex (Text.moved text) := by
  rw [moved, reindex, Outcome.moved_eq_reindex]

theorem lineSpan_moved (m : Occurrence) (text : List Char) :
    (m.moved text).lineSpan (Text.withReturns text) = m.lineSpan text := by
  simp only [lineSpan, moved, stop, Outcome.moved, Text.take_drop_moved, Text.count_withReturns]

end Occurrence

/-- What a match becomes when the text is converted. -/
def Match.converted (m : Match) : Match :=
  ⟨m.line, Text.converted m.text, m.groups.map (·.map Text.converted)⟩

namespace Pattern

variable {p : Pattern}

/-- The occurrence at one place is taken of both texts or of none. -/
theorem takeFrom_cons_twin {text : List Char} {i : Nat} {lastEnd : Option Nat}
    {found : Option Outcome} {outcomes outcomes' : List (Cursor × Option Outcome)}
    (htail : ∀ lastEnd : Option Nat, takeFrom (lastEnd.map (Text.moved text)) outcomes' =
      (takeFrom lastEnd outcomes).map fun (s, o) => (twin text s.index, o.moved text)) :
    takeFrom (lastEnd.map (Text.moved text))
        ((twin text i, found.map (Outcome.moved text)) :: outcomes') =
      (takeFrom lastEnd ((ofIndex text i, found) :: outcomes)).map
        fun (s, o) => (twin text s.index, o.moved text) := by
  cases found with
  | none => exact htail lastEnd
  | some o =>
    simp only [takeFrom, Option.map_some, follows_moved]
    split
    · exact congrArg _ (htail (some o.stop))
    · exact htail lastEnd

theorem takeFrom_twins (hp : p.portable = true) {text cs : List Char} {i : Nat}
    (h : text.drop i = cs) (lastEnd : Option Nat) :
    takeFrom (lastEnd.map (Text.moved text))
        (((twin text i).placesFrom (Text.withReturns cs)).map fun s => (s, p.run Cursor.finish s)) =
      (takeFrom lastEnd
        (((ofIndex text i).placesFrom cs).map fun s => (s, p.run Cursor.finish s))).map
          fun (s, o) => (twin text s.index, o.moved text) := by
  induction cs generalizing i lastEnd with
  | nil =>
    simp only [Text.withReturns_nil, Cursor.placesFrom, List.map_cons, List.map_nil, run_twin hp]
    exact takeFrom_cons_twin fun _ => rfl
  | cons c cs ih =>
    have hnext : text.drop (i + 1) = cs := by rw [← List.drop_drop, h]; rfl
    by_cases hc : c = '\n'
    · subst hc
      simp only [Text.withReturns_newline_cons, Cursor.placesFrom, List.map_cons, run_twin hp,
        Cursor.advance_twin_newline h, Cursor.advance_between h, Cursor.advance_ofIndex h]
      apply takeFrom_cons_twin
      intro lastEnd
      rw [run_between hp h, takeFrom_cons_none]
      exact ih hnext lastEnd
    · simp only [Text.withReturns_cons_of_ne hc, Cursor.placesFrom, List.map_cons, run_twin hp,
        Cursor.advance_twin_of_ne h hc, Cursor.advance_ofIndex h]
      exact takeFrom_cons_twin fun lastEnd => ih hnext lastEnd

theorem taken_withReturns (hp : p.portable = true) (text : List Char) :
    p.taken (Text.withReturns text) = (p.taken text).map (Occurrence.moved text) := by
  have htwins := takeFrom_twins hp (List.drop_zero (l := text)) none
  have hstart : twin text 0 = Cursor.start (Text.withReturns text) := rfl
  rw [taken, taken, takeMatches_eq, takeMatches_eq, outcomes_eq, outcomes_eq, Cursor.places,
    Cursor.places, Cursor.start_eq_ofIndex text, ← hstart]
  rw [Option.map_none] at htwins
  rw [htwins, List.map_map, List.map_map]
  rfl

theorem le_index_of_mem_rounds {p : Pattern}
    (hp : ∀ {s t ms}, p.Reads s t ms → ∀ m ∈ ms, s.index ≤ m.index) {s t : Cursor} {ms : List Mark}
    (h : Rounds p.Reads s t ms) : ∀ m ∈ ms, s.index ≤ m.index := by
  induction h with
  | done s => exact nofun
  | more hread hlt _ ih =>
    intro m hm
    rcases List.mem_append.mp hm with hm | hm
    · exact hp hread m hm
    · exact Nat.le_trans (Nat.le_of_lt hlt) (ih m hm)

/-- A reading passes no edge before the place at which it starts. -/
theorem le_index_of_mem_marks {s t : Cursor} {ms : List Mark} (h : p.Reads s t ms) :
    ∀ m ∈ ms, s.index ≤ m.index := by
  have hle {p : Pattern} {s t : Cursor} {ms : List Mark} (h : p.Reads s t ms) :
      s.index ≤ t.index :=
    Nat.le_trans (Nat.le_add_right _ _) (add_leastLength_le_of_reads h)
  induction p generalizing s t ms with
  | empty =>
    obtain ⟨_, rfl⟩ := h
    exact nofun
  | set cs =>
    obtain ⟨_, _, _, _, _, rfl⟩ := h
    exact nofun
  | check a =>
    obtain ⟨_, _, rfl⟩ := h
    exact nofun
  | seq p q ihp ihq =>
    obtain ⟨u, ns, os, hread, hread', rfl⟩ := h
    intro m hm
    rcases List.mem_append.mp hm with hm | hm
    · exact ihp hread m hm
    · exact Nat.le_trans (hle hread) (ihq hread' m hm)
  | alt p q ihp ihq =>
    rcases h with h | h
    · exact ihp h
    · exact ihq h
  | plus greedy p ihp =>
    obtain ⟨u, ns, os, hread, hrounds, _, rfl⟩ := h
    intro m hm
    rcases List.mem_append.mp hm with hm | hm
    · exact ihp hread m hm
    · exact Nat.le_trans (hle hread) (le_index_of_mem_rounds ihp hrounds m hm)
  | group n p ihp =>
    obtain ⟨ns, hread, rfl⟩ := h
    intro m hm
    simp only [List.mem_append, List.mem_singleton] at hm
    rcases hm with (rfl | hm) | rfl
    · exact Nat.le_refl _
    · exact ihp hread m hm
    · exact hle hread

theorem first_le_index_of_occursAs {text : List Char} {m : Occurrence} (h : p.OccursAs text m) :
    ∀ mark ∈ m.outcome.marks, m.first ≤ mark.index := by
  obtain ⟨t, ms, r, hread, hr, houtcome⟩ := run_sound p _ _ _ h.2
  obtain rfl := Option.some.inj hr
  have hmarks : m.outcome.marks = ms := by rw [houtcome]; exact List.append_nil ms
  exact hmarks ▸ le_index_of_mem_marks hread

/-- A match consists of pieces of the text and the line on which it starts. -/
theorem matchAs_eq {text : String} {m : Occurrence}
    (hm : ∀ mark ∈ m.outcome.marks, m.first ≤ mark.index) :
    p.matchAs text (.ofText text) m =
      ⟨Text.lineOf text.toList m.first,
        String.ofList (Text.slice text.toList m.first m.stop),
        (List.range p.groupCount).map fun n => (m.outcome.group (n + 1)).map fun span =>
          String.ofList (Text.slice text.toList span.1 span.2)⟩ := by
  have hgroup (n : Nat) : ((m.outcome.group (n + 1)).map fun span =>
        (ofIndex text.toList m.first).slice span.1 span.2) =
      (m.outcome.group (n + 1)).map fun span =>
        String.ofList (Text.slice text.toList span.1 span.2) := by
    cases hgroup : m.outcome.group (n + 1) with
    | none => rfl
    | some span => exact congrArg some (Cursor.slice_ofIndex (Outcome.le_of_group hm hgroup) span.2)
  simp only [matchAs, matchOf, Cursor.lineAt_ofIndex, Cursor.index_ofIndex, hgroup,
    Cursor.slice_ofIndex (Nat.le_refl m.first), Occurrence.stop]

theorem le_index_reindex {f : Nat → Nat} (hf : StrictMono f) {m : Occurrence}
    (hm : ∀ mark ∈ m.outcome.marks, m.first ≤ mark.index) :
    ∀ mark ∈ (m.reindex f).outcome.marks, (m.reindex f).first ≤ mark.index := by
  intro mark hmark
  obtain ⟨mark, hmem, rfl⟩ := List.mem_map.mp hmark
  have hle := hf.monotone (hm mark hmem)
  cases mark <;> exact hle

theorem matchAs_moved {text : String} {m : Occurrence}
    (hm : ∀ mark ∈ m.outcome.marks, m.first ≤ mark.index) :
    p.matchAs (Text.converted text) (.ofText (Text.converted text)) (m.moved text.toList) =
      (p.matchAs text (.ofText text) m).converted := by
  have hslice (i j : Nat) : String.ofList (Text.slice (Text.withReturns text.toList)
        (Text.moved text.toList i) (Text.moved text.toList j)) =
      Text.converted (String.ofList (Text.slice text.toList i j)) := by
    rw [Text.converted, String.toList_ofList]
    exact congrArg String.ofList (Text.take_drop_moved text.toList i j)
  have hgroup (n : Nat) : ((m.moved text.toList).outcome.group (n + 1)).map (fun span =>
        String.ofList (Text.slice (Text.withReturns text.toList) span.1 span.2)) =
      ((m.outcome.group (n + 1)).map fun span =>
        String.ofList (Text.slice text.toList span.1 span.2)).map Text.converted := by
    rw [Occurrence.moved, Outcome.group_moved]
    cases m.outcome.group (n + 1) with
    | none => rfl
    | some span => exact congrArg some (hslice span.1 span.2)
  have hmoved := le_index_reindex (Text.strictMono_moved text.toList) hm
  rw [← Occurrence.moved_eq_reindex] at hmoved
  rw [matchAs_eq hm, matchAs_eq hmoved, Text.toList_converted]
  have hline := Text.lineOf_moved text.toList m.first
  have htext := hslice m.first m.stop
  rw [Match.converted, Match.mk.injEq, List.map_map]
  exact ⟨hline, htext, List.map_congr_left fun n _ => hgroup n⟩

/-- A search in the converted text has the matches of the search in the text. -/
theorem search_converted (hp : p.portable = true) (text : String) (maxLines : Nat) :
    p.search (Text.converted text) (.ofText (Text.converted text)) maxLines =
      (p.search text (.ofText text) maxLines).map Match.converted := by
  rw [search_eq, search_eq, Text.toList_converted, taken_withReturns hp, List.filter_map,
    List.map_map, List.map_map]
  have hspan : ((fun m : Occurrence =>
      decide (m.lineSpan (Text.withReturns text.toList) ≤ maxLines)) ∘
        Occurrence.moved text.toList) = fun m => decide (m.lineSpan text.toList ≤ maxLines) := by
    funext m
    exact congrArg (fun n => decide (n ≤ maxLines)) (m.lineSpan_moved text.toList)
  rw [hspan]
  apply List.map_congr_left
  intro m hm
  exact matchAs_moved (first_le_index_of_occursAs (occursAs_of_mem_taken (List.mem_filter.mp hm).1))

theorem isFoundIn_eq (p : Pattern) (text : String) :
    p.isFoundIn text = !(p.taken text.toList).isEmpty := by
  rw [isFoundIn, taken, List.isEmpty_map, takeMatches_eq, any_isSome_eq]

theorem isFoundIn_converted (hp : p.portable = true) (text : String) :
    p.isFoundIn (Text.converted text) = p.isFoundIn text := by
  rw [isFoundIn_eq, isFoundIn_eq, Text.toList_converted, taken_withReturns hp, List.isEmpty_map]

end Pattern
end ScriptAudit
