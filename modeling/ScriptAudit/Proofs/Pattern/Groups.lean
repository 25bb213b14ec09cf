import ScriptAudit.Proofs.Pattern.Matches

/-! # Groups that take part in every match

Whether every reading of a pattern passes a group can be read off the pattern. Main statement:
`exists_group_of_mem_search`, by which every match of such a pattern has a text for the group.
-/
namespace ScriptAudit

/-- Both edges of group `n` are among the marks. -/
def Mark.Passed (n : Nat) (ms : List Mark) : Prop :=
  (∃ i, .opened n i ∈ ms) ∧ ∃ j, .closed n j ∈ ms

theorem Mark.Passed.mono {n : Nat} {ms ns : List Mark} (h : Passed n ms) (hsub : ms ⊆ ns) :
    Passed n ns := by
  obtain ⟨⟨i, hi⟩, ⟨j, hj⟩⟩ := h
  exact ⟨⟨i, hsub hi⟩, ⟨j, hsub hj⟩⟩

namespace Outcome

/-- A fold that keeps what it has found has found something behind a mark that it looks for. -/
theorem isSome_foldl_of_mem {f : Option Nat → Mark → Option Nat}
    (hkeep : ∀ found m, found.isSome = true → (f found m).isSome = true) {sought : Mark}
    (hfind : ∀ found, (f found sought).isSome = true) {ms : List Mark} (hmem : sought ∈ ms)
    (found : Option Nat) : (ms.foldl f found).isSome = true := by
  have hstay : ∀ (ns : List Mark) (found : Option Nat), found.isSome = true →
      (ns.foldl f found).isSome = true := by
    intro ns
    induction ns with
    | nil => exact fun _ h => h
    | cons n ns ih => exact fun found h => ih _ (hkeep found n h)
  induction ms generalizing found with
  | nil => cases hmem
  | cons m ms ih =>
    rcases List.mem_cons.mp hmem with rfl | hmem
    · exact hstay ms _ (hfind found)
    · exact ih hmem _

theorem isSome_lastOpened {o : Outcome} {n i : Nat} (h : .opened n i ∈ o.marks) :
    (o.lastOpened n).isSome = true := by
  apply isSome_foldl_of_mem _ _ h
  · intro found m hfound
    cases m <;> simp only [hfound]
    split <;> simp [hfound]
  · intro found
    simp

theorem isSome_lastClosed {o : Outcome} {n j : Nat} (h : .closed n j ∈ o.marks) :
    (o.lastClosed n).isSome = true := by
  apply isSome_foldl_of_mem _ _ h
  · intro found m hfound
    cases m <;> simp only [hfound]
    split <;> simp [hfound]
  · intro found
    simp

theorem exists_group_of_passed {o : Outcome} {n : Nat} (h : Mark.Passed n o.marks) :
    ∃ span, o.group n = some span := by
  obtain ⟨⟨_, hopened⟩, ⟨_, hclosed⟩⟩ := h
  obtain ⟨i, hi⟩ := Option.isSome_iff_exists.mp (isSome_lastOpened hopened)
  obtain ⟨j, hj⟩ := Option.isSome_iff_exists.mp (isSome_lastClosed hclosed)
  exact ⟨(i, j), by simp [group, hi, hj]⟩

end Outcome

namespace Pattern

/-- Whether every reading of the pattern passes group `n`. -/
def passes (n : Nat) : Pattern → Bool
  | empty | set _ | check _ => false
  | seq p q => p.passes n || q.passes n
  | alt p q => p.passes n && q.passes n
  | plus _ p => p.passes n
  | group m p => m == n || p.passes n

theorem le_groupCount_of_passes {n : Nat} {p : Pattern} (h : p.passes n = true) :
    n ≤ p.groupCount := by
  induction p with
  | empty | set _ | check _ => cases h
  | seq p q hp hq =>
    rcases Bool.or_eq_true_iff.mp h with h | h
    · exact Nat.le_trans (hp h) (Nat.le_max_left ..)
    · exact Nat.le_trans (hq h) (Nat.le_max_right ..)
  | alt p q hp _ =>
    obtain ⟨h, _⟩ := Bool.and_eq_true_iff.mp h
    exact Nat.le_trans (hp h) (Nat.le_max_left ..)
  | plus _ p hp => exact hp h
  | group m p hp =>
    rcases Bool.or_eq_true_iff.mp h with h | h
    · rw [← eq_of_beq h]
      exact Nat.le_max_left ..
    · exact Nat.le_trans (hp h) (Nat.le_max_right ..)

theorem passed_of_reads {n : Nat} {p : Pattern} (h : p.passes n = true) {s t : Cursor}
    {ms : List Mark} (hread : p.Reads s t ms) : Mark.Passed n ms := by
  induction p generalizing s t ms with
  | empty | set _ | check _ => cases h
  | seq p q hp hq =>
    obtain ⟨u, ns, os, hread, hread', rfl⟩ := hread
    rcases Bool.or_eq_true_iff.mp h with h | h
    · exact (hp h hread).mono (List.subset_append_left ..)
    · exact (hq h hread').mono (List.subset_append_right ..)
  | alt p q hp hq =>
    obtain ⟨h, h'⟩ := Bool.and_eq_true_iff.mp h
    rcases hread with hread | hread
    · exact hp h hread
    · exact hq h' hread
  | plus _ p hp =>
    obtain ⟨u, ns, os, hread, _, _, rfl⟩ := hread
    exact (hp h hread).mono (List.subset_append_left ..)
  | group m p hp =>
    obtain ⟨ns, hread, rfl⟩ := hread
    rcases Bool.or_eq_true_iff.mp h with h | h
    · rw [← eq_of_beq h]
      exact ⟨⟨s.index, by simp⟩, ⟨t.index, by simp⟩⟩
    · apply (hp h hread).mono
      intro m hm
      simp [hm]

theorem group_matchOf {p : Pattern} {n : Nat} (hn : n < p.groupCount) (lines : LineIndex)
    (s : Cursor) (o : Outcome) :
    (p.matchOf lines s o).group (n + 1) = (o.group (n + 1)).map fun (i, j) => s.slice i j := by
  simp [matchOf, Match.group, hn]

theorem exists_group_of_mem_search {p : Pattern} {n : Nat} (h : p.passes (n + 1) = true)
    {text : String} {lines : LineIndex} {maxLines : Nat} {m : Match}
    (hm : m ∈ p.search text lines maxLines) : ∃ value, m.group (n + 1) = some value := by
  obtain ⟨_, s, _, o, hrun, rfl⟩ := exists_run_of_mem_search hm
  obtain ⟨t, ms, r, hread, _, rfl⟩ := run_sound p _ _ _ hrun
  have hpassed : Mark.Passed (n + 1) (r.behind ms).marks :=
    (passed_of_reads h hread).mono (List.subset_append_left ..)
  obtain ⟨span, hspan⟩ := Outcome.exists_group_of_passed hpassed
  rw [group_matchOf (le_groupCount_of_passes h), hspan]
  exact ⟨_, rfl⟩

end Pattern
end ScriptAudit
