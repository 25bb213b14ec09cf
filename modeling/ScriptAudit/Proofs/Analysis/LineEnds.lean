import ScriptAudit.Proofs.Analysis.Filter
import ScriptAudit.Proofs.Message.Newline
import ScriptAudit.Proofs.Rules.LineEnds

/-! # Checking converted texts

The findings on a converted text are those on the text itself, with the names and the links in
their texts converted and all else the same. Main statements: `findings_converted` and
`check_converted`.
-/
namespace ScriptAudit

namespace Finding

/-- The finding with a carriage return before each line feed of its text. -/
def converted (f : Finding) : Finding := { f with text := Text.converted f.text }

end Finding

theorem Filling.value?_converted (f : Filling) (name : String) :
    f.converted.value? name = (f.value? name).map Text.converted := by
  cases f with
  | none => rfl
  | message value | link value =>
    simp only [converted, value?]
    split <;> rfl

/-- A template without line feeds brings none into a text. -/
theorem Template.fill_converted {template : String} (h : '\n' ∉ template.toList) (f : Filling) :
    fill template f.converted = Text.converted <$> fill template f := by
  cases hfill : fill template f with
  | ok text =>
    refine fill_eq_ok_iff.mpr ?_
    rw [Text.toList_converted]
    refine (fill_eq_ok_iff.mp hfill).map (f := Text.withReturns) Text.withReturns_append
      (fun gap hgap => Text.withReturns_of_not_mem fun hmem => h (hgap.subset hmem)) ?_
    intro name value hvalue
    exact ⟨Text.converted value, by rw [f.value?_converted, hvalue]; rfl,
      Text.toList_converted value⟩
  | error name =>
    obtain ⟨hname, hmissing, before, behind, heq, hbefore⟩ := fill_eq_error_iff.mp hfill
    refine fill_eq_error_iff.mpr ⟨hname, ?_, before, behind, heq, fun n hn => ?_⟩
    · rw [f.value?_converted, hmissing]
      rfl
    · rw [f.value?_converted]
      exact mt Option.map_eq_none_iff.mp (hbefore n hn)

theorem Finding.ofRule_converted (rule : RuleName) (line : Nat) (f : Filling) :
    ofRule rule line f.converted = converted <$> ofRule rule line f := by
  unfold ofRule RuleName.format
  rw [Template.fill_converted rule.newline_not_mem_template]
  cases Template.fill rule.entry.template f <;> rfl

theorem Rule.findings_converted {r : Rule} (hr : r ∈ table) {s : Source} (h : '\r' ∉ s.chars) :
    r.findings s.converted = List.map Finding.converted <$> r.findings s := by
  have happlies : r.appliesTo s.converted = r.appliesTo s := rfl
  unfold findings
  rw [happlies, portable_detect hr s h]
  by_cases hskipped : (!r.appliesTo s) = true
  · rw [if_pos hskipped, if_pos hskipped]
    rfl
  by_cases hseverity : r.name.entry.severity ≠ r.severity
  · rw [if_neg hskipped, if_neg hskipped, if_pos hseverity, if_pos hseverity]
    rfl
  rw [if_neg hskipped, if_neg hskipped, if_neg hseverity, if_neg hseverity]
  cases r.detect s with
  | error cause => rfl
  | ok hits =>
    have hmap := mapM_map_eq (fun h : Hit => Finding.ofRule r.name h.line h.filling)
      Finding.converted hits
    rw [← hmap]
    refine List.mapM_map.trans (congrArg (hits.mapM ·) (funext fun hit => ?_))
    exact Finding.ofRule_converted r.name hit.line hit.filling

namespace Source

theorem isEmpty_converted (s : Source) : s.converted.text.isEmpty = s.text.isEmpty := by
  have htext : s.converted.text.toList = Text.withReturns s.text.toList := s.chars_converted
  rw [Bool.eq_iff_iff, String.isEmpty_iff, String.isEmpty_iff, ← String.toList_eq_nil_iff, htext,
    Text.withReturns_eq_nil_iff, String.toList_eq_nil_iff]

theorem findings_converted {s : Source} (h : '\r' ∉ s.chars) :
    s.converted.findings = List.map Finding.converted <$> s.findings := by
  unfold findings
  rw [isEmpty_converted]
  cases s.text.isEmpty with
  | true =>
    have hof : Finding.ofRule .emptyFile 1 .none =
        Finding.converted <$> Finding.ofRule .emptyFile 1 .none :=
      Finding.ofRule_converted .emptyFile 1 .none
    simp only [if_true]
    cases hfinding : Finding.ofRule .emptyFile 1 .none with
    | error fault => rfl
    | ok f =>
      rw [hfinding] at hof
      exact congrArg (fun f => Except.ok [f]) (Except.ok.inj hof)
  | false =>
    have hrules : Rule.table.mapM (fun r => r.findings s.converted) =
        Rule.table.mapM fun r => List.map Finding.converted <$> r.findings s :=
      mapM_congr_of_mem fun r hr => Rule.findings_converted hr h
    simp only [Bool.false_eq_true, if_false]
    rw [hrules, mapM_map_eq]
    cases Rule.table.mapM fun r => r.findings s with
    | error fault => rfl
    | ok fss => exact congrArg Except.ok List.map_flatten.symm

end Source

namespace Analysis

theorem ofFindings_converted (fs : List Finding) :
    ofFindings (fs.map Finding.converted) =
      { ofFindings fs with findings := fs.map Finding.converted } := by
  unfold ofFindings
  rw [List.foldl_map, List.foldl_map]
  rfl

end Analysis

namespace Script

/-- The options keep a finding whether or not it is converted. -/
theorem filter_converted (o : Options) (fs : List Finding) :
    (fs.map Finding.converted).filter (fun f => o.keeps f.rule f.severity) =
      (fs.filter fun f => o.keeps f.rule f.severity).map Finding.converted := by
  rw [List.filter_map]
  rfl

/-- A check of a text without carriage returns and one of the converted text have the same
findings apart from the line ends in their texts, and so the same counts and the same score. -/
theorem check_converted {s : Source} (h : '\r' ∉ s.chars) (o : Options) :
    ∃ t t' : Script, (ofSource s o).check = .ok t ∧ (ofSource s.converted o).check = .ok t' ∧
      t'.analysis.findings = t.analysis.findings.map Finding.converted ∧
      t'.analysis.counts = t.analysis.counts ∧ t'.analysis.score = t.analysis.score := by
  obtain ⟨fs, hfs, hcheck⟩ := exists_check s
  obtain ⟨fs', hfs', hcheck'⟩ := exists_check s.converted
  rw [Source.findings_converted h, hfs] at hfs'
  obtain rfl := Except.ok.inj hfs'
  refine ⟨_, _, hcheck o, hcheck' o, ?_⟩
  rw [filter_converted, Analysis.ofFindings_converted]
  exact ⟨rfl, rfl, rfl⟩

/-- A script whose name for a message is spread over two lines. -/
def overTwoLines : Source := ⟨Path.ofString "a.py", "hook_modifier(\"irc_in_jo\nin\")\n"⟩

theorem check_converted_overTwoLines :
    '\r' ∉ overTwoLines.chars ∧
    overTwoLines.converted.text = "hook_modifier(\"irc_in_jo\r\nin\")\r\n" ∧
    ∃ t t' : Script, (ofSource overTwoLines .standard).check = .ok t ∧
      (ofSource overTwoLines.converted .standard).check = .ok t' ∧
      t'.analysis.findings = t.analysis.findings.map Finding.converted ∧
      t'.analysis.counts = t.analysis.counts ∧ t'.analysis.score = t.analysis.score :=
  have h : '\r' ∉ overTwoLines.chars := by decide
  ⟨h, by decide, check_converted h .standard⟩

end Script
end ScriptAudit
