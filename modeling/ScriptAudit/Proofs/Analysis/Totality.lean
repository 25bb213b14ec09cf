import ScriptAudit.Proofs.Analysis.Findings
import ScriptAudit.Proofs.Rules.Fillings

/-! # No script makes a check fail

The rules, the catalog and the templates fit together, so that none of the internal faults arises,
whatever the text. Main statements: `exists_findings`, and `exists_findings_analyze`, by which all
analyses of a source draw on the same findings.
-/
namespace ScriptAudit

theorem Finding.exists_ofRule {rule : RuleName} {filling : Filling}
    (h : filling.Suits rule.entry.template) (line : Nat) :
    ∃ f, Finding.ofRule rule line filling = .ok f := by
  obtain ⟨text, htext⟩ := Template.exists_fill h
  exact ⟨_, ofRule_eq_ok_iff.mpr ⟨text, htext, rfl⟩⟩

theorem Rule.exists_findings {r : Rule} (hr : r ∈ table) (s : Source) :
    ∃ fs, r.findings s = .ok fs := by
  unfold findings
  split
  · exact ⟨[], rfl⟩
  · obtain ⟨hits, hhits, hsuits⟩ := answers_of_mem_table hr s
    simp only [severity_of_mem_table r hr, ne_eq, not_true_eq_false, if_false, hhits]
    exact exists_mapM_eq_ok fun hit hhit => Finding.exists_ofRule (hsuits hit hhit) hit.line

namespace Source

theorem exists_findings (s : Source) : ∃ fs, s.findings = .ok fs := by
  cases hempty : s.text.isEmpty with
  | true =>
    rw [findings_of_isEmpty hempty]
    exact ⟨_, rfl⟩
  | false =>
    rw [findings_of_not_isEmpty hempty]
    obtain ⟨fss, hfss⟩ := exists_mapM_eq_ok fun r hr => Rule.exists_findings hr s
    exact ⟨fss.flatten, by rw [hfss]; rfl⟩

/-- The analysis of a source takes in all of its findings one by one. -/
theorem exists_findings_analyze (s : Source) :
    ∃ fs, s.findings = .ok fs ∧ ∀ o, s.analyze o = .ok (fs.foldl (Analysis.add o) .fresh) := by
  obtain ⟨fs, hfs⟩ := s.exists_findings
  refine ⟨fs, hfs, ?_⟩
  intro o
  rw [analyze_eq, hfs]
  rfl

end Source

theorem Script.check_ofSource {s : Source} {o : Options} {a : Analysis} (h : s.analyze o = .ok a) :
    (ofSource s o).check = .ok ⟨s, o, a⟩ := by
  simp only [check, ofSource, h]
  rfl

open Rules in
/-- Every check of a script comes to an end without a fault: each rule is declared with the
severity of the catalog and answers with what its message needs, and every match that names an IRC
message has captured the name. -/
theorem Source.check_total (s : Source) :
    (∀ o, ∃ t, (Script.ofSource s o).check = .ok t) ∧
    (∀ r ∈ Rule.table, r.name.entry.severity = r.severity ∧ r.Answers s) ∧
    (∀ p ∈ [modifierPattern, signalPattern "irc_out_", signalPattern "irc_outtags_"],
      ∀ m ∈ s.search p 2, ∃ name, m.group 1 = some name) := by
  refine ⟨?_, ?_, ?_⟩
  · intro o
    obtain ⟨fs, _, hanalyze⟩ := s.exists_findings_analyze
    exact ⟨_, Script.check_ofSource (hanalyze o)⟩
  · intro r hr
    exact ⟨Rule.severity_of_mem_table r hr, Rule.answers_of_mem_table hr s⟩
  · have hpasses : ∀ p ∈ [modifierPattern, signalPattern "irc_out_", signalPattern "irc_outtags_"],
        p.passes 1 = true := by decide
    intro p hp m hm
    exact Pattern.exists_group_of_mem_search (hpasses p hp) hm

end ScriptAudit
