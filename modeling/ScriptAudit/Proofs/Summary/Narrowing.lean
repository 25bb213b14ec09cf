import ScriptAudit.Proofs.Summary.Capacity

/-! # Narrower options

Options are narrower if they ignore more rules or show fewer severities. A check with them keeps
fewer findings, so that the score is no lower and there is no more to count. Main statements:
`Rechecked.score_le`, `issueCount_le` and `counts_get_eq`.
-/
namespace ScriptAudit

namespace Options

variable {o o' : Options}

/-- The second options ignore the rules that the first ones ignore, and show no other severities. -/
structure Narrows (o o' : Options) : Prop where
  ignored : o.ignored ⊆ o'.ignored
  level : o'.level ≤ o.level

theorem Narrows.keeps (h : o.Narrows o') {f : Finding}
    (hkept : o'.keeps f.rule f.severity = true) : o.keeps f.rule f.severity = true := by
  obtain ⟨hrule, hseverity⟩ := keeps_eq_true_iff.mp hkept
  exact keeps_eq_true_iff.mpr ⟨fun hmem => hrule (h.ignored hmem), Nat.le_trans hseverity h.level⟩

/-- The same findings of a severity are kept if the same rules are ignored and both levels show it. -/
theorem keeps_congr (h : ∀ r, r ∈ o.ignored ↔ r ∈ o'.ignored) {v : Severity} (hv : v ≤ o.level)
    (hv' : v ≤ o'.level) (r : RuleName) : o.keeps r v = o'.keeps r v := by
  have hcontains : o.ignored.contains r = o'.ignored.contains r := by
    rw [Bool.eq_iff_iff, List.contains_iff_mem, List.contains_iff_mem, h]
  unfold keeps Severity.isShownAt
  rw [hcontains, decide_eq_true hv, decide_eq_true hv']

end Options

namespace Script

variable {o o' : Options} {s s' : Script}

/-- A script after a check that found these findings and kept some of them. -/
def keeping (source : Source) (o : Options) (fs : List Finding) : Script :=
  ⟨source, o, .ofFindings (fs.filter fun f => o.keeps f.rule f.severity)⟩

/-- The same script, checked with one kind of options and with another. -/
def Rechecked (o o' : Options) (s s' : Script) : Prop :=
  ∃ source fs, s = keeping source o fs ∧ s' = keeping source o' fs

namespace Rechecked

theorem source_eq (h : Rechecked o o' s s') : s'.source = s.source := by
  obtain ⟨source, fs, rfl, rfl⟩ := h
  rfl

theorem sublist (h : Rechecked o o' s s') (hnarrows : o.Narrows o') :
    s'.analysis.findings.Sublist s.analysis.findings := by
  obtain ⟨source, fs, rfl, rfl⟩ := h
  exact List.monotone_filter_right fs fun f hf => hnarrows.keeps hf

theorem score_le (h : Rechecked o o' s s') (hnarrows : o.Narrows o') :
    s.analysis.score ≤ s'.analysis.score := by
  have hsublist := h.sublist hnarrows
  obtain ⟨source, fs, rfl, rfl⟩ := h
  exact Analysis.score_ofFindings_le_of_sublist hsublist

theorem counts_get_eq (h : Rechecked o o' s s') {v : Severity}
    (hkeeps : ∀ r, o.keeps r v = o'.keeps r v) :
    s'.analysis.counts.get v = s.analysis.counts.get v := by
  obtain ⟨source, fs, rfl, rfl⟩ := h
  change (Analysis.ofFindings _).counts.get v = (Analysis.ofFindings _).counts.get v
  rw [Analysis.counts_ofFindings, Analysis.counts_ofFindings, List.countP_filter,
    List.countP_filter]
  refine List.countP_congr fun f _ => ?_
  by_cases hv : f.severity = v
  · simp [hv, hkeeps]
  · simp [hv]

end Rechecked
end Script

namespace Summary

open Script (Rechecked)

variable {o o' : Options} {ts us : List Script}

theorem map_source_eq (h : List.Forall₂ (Rechecked o o') ts us) :
    us.map Script.source = ts.map Script.source := by
  induction h with
  | nil => rfl
  | cons hs _ ih => rw [List.map_cons, List.map_cons, hs.source_eq, ih]

/-- Whether scripts fit into memory depends on their texts. -/
theorem InMemory.rechecked (hmem : InMemory ts) (h : List.Forall₂ (Rechecked o o') ts us) :
    InMemory us := by
  have hsize (ws : List Script) : (ws.map fun t => t.source.text.utf8ByteSize + 8) =
      (ws.map Script.source).map fun source => source.text.utf8ByteSize + 8 := by
    rw [List.map_map]
    rfl
  unfold InMemory at *
  rw [hsize] at *
  rw [map_source_eq h]
  exact hmem

theorem severityCount_le (h : List.Forall₂ (Rechecked o o') ts us) (hnarrows : o.Narrows o')
    (v : Severity) : severityCount us v ≤ severityCount ts v := by
  induction h with
  | nil => exact Nat.le_refl _
  | cons hs _ ih =>
    have hhead := (hs.sublist hnarrows).countP_le (p := (·.severity = v))
    simp only [severityCount, List.map_cons, List.sum_cons] at ih ⊢
    omega

theorem issueCount_le (h : List.Forall₂ (Rechecked o o') ts us) (hnarrows : o.Narrows o')
    (strict : Bool) : issueCount us strict ≤ issueCount ts strict := by
  have herror := severityCount_le h hnarrows .error
  have hwarning := severityCount_le h hnarrows .warning
  unfold issueCount
  split <;> omega

/-- The same findings of a severity are counted if the same are kept. -/
theorem counts_get_eq (h : List.Forall₂ (Rechecked o o') ts us) {v : Severity}
    (hkeeps : ∀ r, o.keeps r v = o'.keeps r v) :
    (ofScripts us).counts.get v = (ofScripts ts).counts.get v := by
  have hfold {u w : Summary} (hstart : w.counts.get v = u.counts.get v) :
      (us.foldl add w).counts.get v = (ts.foldl add u).counts.get v := by
    induction h generalizing u w with
    | nil => exact hstart
    | cons hs _ ih =>
      refine ih ?_
      simp only [add, Tally.get_merge, hstart, hs.counts_get_eq hkeeps]
  exact hfold rfl

end Summary
end ScriptAudit
