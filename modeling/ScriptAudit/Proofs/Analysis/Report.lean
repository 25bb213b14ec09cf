import ScriptAudit.Proofs.Analysis.ControlCharacters
import ScriptAudit.Proofs.Analysis.Filter
import ScriptAudit.Proofs.Text.Split

/-! # The lines of a report

A report puts the findings below each other. What a script has as the name of an IRC message goes
into the report as it is, and since such a name may run over a line feed, so may a finding. Main
statement: `reportsByLine_check`, by which nothing else keeps a report from having one line for
each finding.
-/
namespace ScriptAudit
open Rules

/-- The line feeds of a link would be counted among those of its match. -/
theorem Source.newline_not_mem_text {s : Source} {p : Pattern} {m : Match} (h : m ∈ s.search p 1) :
    '\n' ∉ m.text.toList := by
  have hspan := (Pattern.exists_run_of_mem_search h).1
  unfold Pattern.lineSpan at hspan
  rw [← List.count_pos_iff]
  omega

namespace RuleName
variable {name : RuleName} {p : Pattern}

theorem mem_table_of_messagePattern? (h : name.messagePattern? = some p) :
    (⟨name, .warning, none, messageHits p⟩ : Rule) ∈ Rule.table := by
  cases name <;> cases h <;> simp [Rule.table] <;> rfl

theorem severity_of_messagePattern? (h : name.messagePattern? = some p) :
    name.entry.severity = .warning := by
  cases name <;> cases h <;> rfl

theorem search_of_isEmpty (h : name.messagePattern? = some p) {s : Source}
    (hempty : s.text = "") : s.search p 2 = [] := by
  unfold Source.search
  rw [hempty]
  cases name <;> cases h <;> decide

end RuleName

/-- The rule finds the name of an IRC message that runs over a line feed. -/
def Source.BreaksLine (s : Source) (name : RuleName) : Prop :=
  ∃ p, name.messagePattern? = some p ∧ ∃ m ∈ s.search p 2, '\n' ∈ (messageName m).toList

theorem Source.BreaksLine.severity {s : Source} {name : RuleName} (h : s.BreaksLine name) :
    name.entry.severity = .warning := by
  obtain ⟨p, hp, _⟩ := h
  exact RuleName.severity_of_messagePattern? hp

theorem Rule.breaksLine_of_newline_mem {r : Rule} (hr : r ∈ table) {s : Source} {hits : List Hit}
    (hhits : r.detect s = .ok hits) {hit : Hit} (hhit : hit ∈ hits) {f : Finding}
    (hf : Finding.ofRule r.name hit.line hit.filling = .ok f) (h : '\n' ∈ f.text.toList) :
    s.BreaksLine r.name := by
  obtain ⟨_, _, value, hvalue, hmem⟩ := (Finding.mem_text_iff (by decide) hf).mp h
  rcases exists_match_of_value? hr hhits hhit hvalue with ⟨p, hp, m, hm, rfl⟩ | ⟨p, m, hm, rfl⟩
  · exact ⟨p, hp, m, hm, hmem⟩
  · exact absurd hmem (Source.newline_not_mem_text hm)

namespace Source

theorem exists_finding_of_mem_search {s : Source} {fs : List Finding}
    (hne : s.text.isEmpty = false) (h : s.findings = .ok fs) {name : RuleName} {p : Pattern}
    (hp : name.messagePattern? = some p) {m : Match} (hm : m ∈ s.search p 2) :
    ∃ f ∈ fs, Finding.ofRule name m.line (.message (messageName m)) = .ok f := by
  obtain ⟨f, hf⟩ :=
    Finding.exists_ofRule (RuleName.suits_of_messagePattern? hp (messageName m)) m.line
  have hr := RuleName.mem_table_of_messagePattern? hp
  have hhits := messageHits_eq (RuleName.passes_of_messagePattern? hp) s
  exact ⟨f, (mem_findings_iff hne h).mpr ⟨_, hr, rfl, _, hhits, _, List.mem_map_of_mem hm, hf⟩, hf⟩

/-- A finding runs over several lines only through the name of an IRC message that does. -/
theorem exists_newline_mem_iff {s : Source} {fs : List Finding} (h : s.findings = .ok fs)
    (name : RuleName) :
    (∃ f ∈ fs, f.rule = name ∧ '\n' ∈ f.text.toList) ↔ s.BreaksLine name := by
  cases hempty : s.text.isEmpty with
  | true =>
    rw [findings_of_isEmpty hempty] at h
    obtain ⟨g, hg, rfl⟩ := map_eq_ok_iff.mp h
    constructor
    · rintro ⟨f, hf, _, hmem⟩
      rw [List.mem_singleton.mp hf, Finding.mem_text_iff (by decide) hg] at hmem
      obtain ⟨_, _, _, hvalue, _⟩ := hmem
      cases hvalue
    · rintro ⟨p, hp, m, hm, _⟩
      rw [RuleName.search_of_isEmpty hp (String.isEmpty_iff.mp hempty)] at hm
      cases hm
  | false =>
    constructor
    · rintro ⟨f, hf, rfl, hmem⟩
      obtain ⟨r, hr, _, hits, hhits, hit, hhit, hof⟩ := (mem_findings_iff hempty h).mp hf
      rw [(Finding.eq_of_ofRule hof).1]
      exact Rule.breaksLine_of_newline_mem hr hhits hhit hof hmem
    · rintro ⟨p, hp, m, hm, hmem⟩
      obtain ⟨f, hff, hf⟩ := exists_finding_of_mem_search hempty h hp hm
      refine ⟨f, hff, (Finding.eq_of_ofRule hf).1, ?_⟩
      rw [Finding.mem_text_iff (by decide) hf, RuleName.names_of_messagePattern? hp]
      exact ⟨"message", List.mem_cons_self, _, rfl, hmem⟩

end Source

namespace Script

/-- The report is empty if nothing was found, and else has one line for each finding. -/
def ReportsByLine (t : Script) : Prop :=
  if t.analysis.findings = [] then t.report false = ""
  else Text.split '\n' (t.report false).toList =
    t.analysis.findings.map fun f => (f.written t.path).toList

theorem report_of_findings_eq_nil {t : Script} (h : t.analysis.findings = []) :
    t.report false = "" := by
  simp [report, h]

theorem split_report {t : Script} (hcolors : t.options.colors = false)
    (hne : t.analysis.findings ≠ []) :
    Text.split '\n' (t.report false).toList =
      t.analysis.findings.flatMap fun f => Text.split '\n' (f.written t.path).toList := by
  have hempty : t.analysis.findings.isEmpty = false := by simpa using hne
  have hmap : t.analysis.findings.map (fun f => (f.written t.path).toList) ≠ [] := by simpa using hne
  have hreport : (t.report false).toList =
      ['\n'].intercalate (t.analysis.findings.map fun f => (f.written t.path).toList) := by
    simp only [report, hempty, hcolors, Bool.false_eq_true, if_false, Finding.render_false,
      String.toList_intercalate, List.map_map]
    rfl
  rw [hreport, Text.split_intercalate '\n' hmap, List.flatMap_map]

theorem reportsByLine_iff_newline_not_mem {t : Script} (hcolors : t.options.colors = false)
    (hpath : 10 ∉ t.path.bytes) :
    t.ReportsByLine ↔ ∀ f ∈ t.analysis.findings, '\n' ∉ f.text.toList := by
  unfold ReportsByLine
  split
  · next h =>
    simp [h, report_of_findings_eq_nil h]
  · next h =>
    rw [split_report hcolors h, ← List.flatMap_map, Text.flatMap_split_eq_self_iff]
    simp [Finding.newline_mem_written_iff hpath]

/-- What a check keeps runs over several lines through a reported name of an IRC message only. -/
theorem newline_not_mem_iff {s : Source} {fs : List Finding} (h : s.findings = .ok fs)
    (o : Options) :
    (∀ f ∈ fs.filter (fun f => o.keeps f.rule f.severity), '\n' ∉ f.text.toList) ↔
      ∀ name, s.BreaksLine name → o.keeps name .warning = false := by
  constructor
  · intro hlines name hbreaks
    obtain ⟨f, hf, rfl, hmem⟩ := (Source.exists_newline_mem_iff h name).mpr hbreaks
    rw [← hbreaks.severity, ← (Source.isListed_of_mem_findings h hf).severity, Bool.eq_false_iff]
    intro hkeeps
    exact hlines f (List.mem_filter.mpr ⟨hf, hkeeps⟩) hmem
  · intro hnames f hf hmem
    obtain ⟨hf, hkeeps⟩ := List.mem_filter.mp hf
    have hbreaks := (Source.exists_newline_mem_iff h f.rule).mp ⟨f, hf, rfl, hmem⟩
    rw [(Source.isListed_of_mem_findings h hf).severity, hbreaks.severity, hnames f.rule hbreaks] at hkeeps
    cases hkeeps

theorem reportsByLine_check {s : Source} {o : Options} (hcolors : o.colors = false)
    (hpath : 10 ∉ s.path.bytes) {t : Script} (ht : (ofSource s o).check = .ok t) :
    t.ReportsByLine ↔ ∀ name, s.BreaksLine name → o.keeps name .warning = false := by
  obtain ⟨fs, hfs, hcheck⟩ := exists_check s
  cases (hcheck o).symm.trans ht
  refine (reportsByLine_iff_newline_not_mem ?_ ?_).trans (newline_not_mem_iff hfs o)
  · exact hcolors
  · exact hpath

/-- A report without colors has the lines of the findings in their order. These are one for each
finding exactly when no name of an IRC message that is reported runs over a line feed. -/
theorem report_lines {s : Source} {o : Options} (hcolors : o.colors = false)
    (hpath : 10 ∉ s.path.bytes) : ∃ t, (ofSource s o).check = .ok t ∧
      (t.analysis.findings = [] → t.report false = "") ∧
      (t.analysis.findings ≠ [] → Text.split '\n' (t.report false).toList =
        t.analysis.findings.flatMap fun f => Text.split '\n' (f.written s.path).toList) ∧
      (t.ReportsByLine ↔ ∀ name, s.BreaksLine name → o.keeps name .warning = false) := by
  obtain ⟨fs, _, hcheck⟩ := exists_check s
  exact ⟨_, hcheck o, report_of_findings_eq_nil, split_report hcolors,
    reportsByLine_check hcolors hpath (hcheck o)⟩

theorem report_lines_of_one_line : (⟨[], .info, false⟩ : Options).colors = false ∧
    10 ∉ (Path.ofString "a.py").bytes ∧
    ∃ t, (ofSource ⟨Path.ofString "a.py", "hook_modifier(\"irc_in_join\")"⟩
        ⟨[], .info, false⟩).check = .ok t ∧
      (t.analysis.findings = [] → t.report false = "") ∧
      (t.analysis.findings ≠ [] → Text.split '\n' (t.report false).toList =
        t.analysis.findings.flatMap fun f =>
          Text.split '\n' (f.written (Path.ofString "a.py")).toList) ∧
      (t.ReportsByLine ↔ ∀ name,
        Source.BreaksLine ⟨Path.ofString "a.py", "hook_modifier(\"irc_in_join\")"⟩ name →
          (⟨[], .info, false⟩ : Options).keeps name .warning = false) :=
  ⟨rfl, by decide, report_lines rfl (by decide)⟩

/-- A name that is cut in two by a line feed is reported on two lines. -/
theorem not_reportsByLine_of_broken_name : ∃ t,
    (ofSource ⟨Path.ofString "a.py", "hook_modifier(\"irc_in_jo\nin\")"⟩
      ⟨[], .info, false⟩).check = .ok t ∧ ¬ t.ReportsByLine := by
  obtain ⟨fs, _, hcheck⟩ :=
    exists_check ⟨Path.ofString "a.py", "hook_modifier(\"irc_in_jo\nin\")"⟩
  refine ⟨_, hcheck ⟨[], .info, false⟩, ?_⟩
  rw [reportsByLine_check rfl (by decide) (hcheck _)]
  intro hnames
  have hbreaks : Source.BreaksLine
      ⟨Path.ofString "a.py", "hook_modifier(\"irc_in_jo\nin\")"⟩ .modifierIrcIn :=
    ⟨modifierPattern, rfl, by decide⟩
  exact absurd (hnames .modifierIrcIn hbreaks) (by decide)

end Script
end ScriptAudit
