import ScriptAudit.Proofs.Analysis.ByRule
import ScriptAudit.Proofs.Rules.HitCount
import ScriptAudit.Proofs.Rules.Positions

/-! # The order of the findings

Findings are reported rule by rule in the order of the table, errors before warnings before
information, and those of one rule from the start of the text to its end. Main statement:
`Script.check_arranged`.
-/
namespace ScriptAudit

/-- The place of a rule in the table. -/
def RuleName.position (name : RuleName) : Nat := Rule.table.findIdx (·.name = name)

/-- Whether a finding may be reported ahead of another. -/
structure Finding.Precedes (f g : Finding) : Prop where
  rule : f.rule.position < g.rule.position ∨ f.rule = g.rule ∧ f.line ≤ g.line
  severity : f.severity ≤ g.severity

/-- Findings on a text in the order and at the places that they should have. -/
structure Arranged (cs : List Char) (fs : List Finding) : Prop where
  pairwise : fs.Pairwise Finding.Precedes
  bounds : ∀ f ∈ fs, 1 ≤ f.line ∧ f.line ≤ cs.count '\n' + 1
  once : ∀ name : RuleName, name.speaksOnce = true → fs.countP (·.rule = name) ≤ 1
  atStart : ∀ f ∈ fs, f.rule.speaksOnce = true → f.rule ≠ .mixedTabsSpaces → f.line = 1

theorem Arranged.sublist {cs : List Char} {fs gs : List Finding} (h : Arranged cs gs)
    (hsub : fs.Sublist gs) : Arranged cs fs where
  pairwise := h.pairwise.sublist hsub
  bounds f hf := h.bounds f (hsub.subset hf)
  once name hname := Nat.le_trans (hsub.countP_le) (h.once name hname)
  atStart f hf := h.atStart f (hsub.subset hf)

theorem Severity.le_refl (v : Severity) : v ≤ v := Nat.le_refl v.rank

namespace Rule

variable {r : Rule} {s : Source} {f g : Finding}

theorem pairwise_table : table.Pairwise fun r r' =>
    r.name.position < r'.name.position ∧ r.severity ≤ r'.severity := by decide

theorem exists_name_eq {name : RuleName} (h : name ≠ .emptyFile) : ∃ r ∈ table, r.name = name := by
  have hmem : name ∈ table.map (·.name) := by cases name <;> simp_all [table]
  exact List.mem_map.mp hmem

theorem inOrder_found (hr : r ∈ table) (s : Source) :
    Text.InOrder s.chars ((r.found s).map (·.line)) := by
  cases happlies : r.appliesTo s with
  | false =>
    rw [found_of_not_appliesTo happlies]
    exact Text.inOrder_nil _
  | true =>
    obtain ⟨hits, hhits, _⟩ := answers_of_mem_table hr s
    rw [map_line_found hr happlies hhits]
    exact inOrder_detect hr hhits

theorem pairwise_found (hr : r ∈ table) (s : Source) : (r.found s).Pairwise Finding.Precedes := by
  refine (List.pairwise_map.mp (inOrder_found hr s).pairwise).imp_of_mem ?_
  intro f g hf hg hline
  have hrule : f.rule = g.rule := (rule_of_mem_found hr hf).trans (rule_of_mem_found hr hg).symm
  have hseverity : f.severity = g.severity :=
    (severity_of_mem_found hr hf).trans (severity_of_mem_found hr hg).symm
  exact ⟨.inr ⟨hrule, hline⟩, hseverity ▸ f.severity.le_refl⟩

theorem length_found_le_one (hr : r ∈ table) (honce : r.name.speaksOnce = true) (s : Source) :
    (r.found s).length ≤ 1 := by
  have hle := length_findings_le hr (findings_eq_found hr s)
  rwa [mostHits, if_pos honce] at hle

theorem line_of_mem_found (hr : r ∈ table) (honce : r.name.speaksOnce = true)
    (hmixed : r.name ≠ .mixedTabsSpaces) (hf : f ∈ r.found s) : f.line = 1 := by
  obtain ⟨hits, hhits, hit, hmem, hof⟩ := exists_hit_of_mem_found hr hf
  rw [(Finding.eq_of_ofRule hof).2.1]
  cases form_of_mem_table hr with
  | once test _ hdetect =>
    obtain rfl := Except.ok.inj ((hdetect s).symm.trans hhits)
    unfold Source.firstLineUnless at hmem
    split at hmem
    · cases hmem
    · rw [List.mem_singleton.mp hmem]
      rfl
  | perMatch _ _ _ _ _ hname _ _ => exact absurd honce (Bool.eq_false_iff.mp hname)
  | indentation hname _ => exact absurd hname hmixed

end Rule

namespace Source

theorem pairwise_found {s : Source} (hne : s.text ≠ "") : s.found.Pairwise Finding.Precedes := by
  rw [found_of_ne_empty hne, List.pairwise_flatMap]
  refine ⟨fun r hr => Rule.pairwise_found hr s, Rule.pairwise_table.imp_of_mem ?_⟩
  intro r r' hr hr' h f hf g hg
  refine ⟨.inl ?_, ?_⟩
  · rw [Rule.rule_of_mem_found hr hf, Rule.rule_of_mem_found hr' hg]
    exact h.1
  · rw [Rule.severity_of_mem_found hr hf, Rule.severity_of_mem_found hr' hg]
    exact h.2

theorem arranged_found_of_ne_empty {s : Source} (hne : s.text ≠ "") :
    Arranged s.chars s.found where
  pairwise := pairwise_found hne
  bounds f hf := by
    obtain ⟨r, hr, hf⟩ := (mem_found_iff hne).mp hf
    have horder := Rule.inOrder_found hr s
    have hline := List.mem_map_of_mem (f := (·.line)) hf
    exact ⟨horder.pos _ hline, horder.le _ hline⟩
  once name hname := by
    have hnot : name ≠ .emptyFile := by
      rintro rfl
      cases hname
    obtain ⟨r, hr, rfl⟩ := Rule.exists_name_eq hnot
    rw [List.countP_eq_length_filter, filter_found hne hr]
    exact Rule.length_found_le_one hr hname s
  atStart f hf honce hmixed := by
    obtain ⟨r, hr, hf⟩ := (mem_found_iff hne).mp hf
    rw [Rule.rule_of_mem_found hr hf] at honce hmixed
    exact Rule.line_of_mem_found hr honce hmixed hf

theorem arranged_found (s : Source) : Arranged s.chars s.found := by
  by_cases h : s.text = ""
  · rw [found_of_empty h]
    exact ⟨List.pairwise_singleton _ _, by simp [Finding.ofEmpty], fun _ _ => List.countP_le_length,
      by simp [Finding.ofEmpty]⟩
  · exact arranged_found_of_ne_empty h

end Source

/-- The findings of a check come in the order of the table of rules, which is one by severity, and
those of one rule in the order of the text; each is on a line that the text has. The rules that say
something about the script as a whole have one finding at most, and all but the one on indentation
have it on the first line. -/
theorem Script.check_arranged (t : Script) :
    ∃ t', t.check = .ok t' ∧ Arranged t.source.chars t'.analysis.findings :=
  ⟨_, t.check_eq_found, t.source.arranged_found.sublist List.filter_sublist⟩

end ScriptAudit
