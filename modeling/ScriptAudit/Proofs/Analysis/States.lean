import Mathlib.Algebra.Order.BigOperators.Group.List
import ScriptAudit.Proofs.Analysis.Filter
import ScriptAudit.Proofs.Rules.HitCount

/-! # The states of a script

A script is opened, and then checked any number of times. What it holds at any time are findings
that the catalog lists, together with their numbers and what they leave of the score. Main
statements: `Reached.exists_findings`, by which a state is settled by the findings that it holds,
and `Reached.consistent`.
-/
namespace ScriptAudit

/-- The whole numbers that a signed 32-bit word can hold. -/
def IsWord32 (n : Int) : Prop := -2 ^ 31 ≤ n ∧ n < 2 ^ 31

theorem RuleName.scoreDelta_bounds (r : RuleName) :
    -100 ≤ r.entry.scoreDelta ∧ r.entry.scoreDelta ≤ -1 := by
  cases r <;> decide

namespace Finding

theorem IsListed.natAbs_scoreDelta {f : Finding} (h : f.IsListed) :
    1 ≤ f.scoreDelta.natAbs ∧ f.scoreDelta.natAbs ≤ 100 := by
  obtain ⟨hlow, hhigh⟩ := f.rule.scoreDelta_bounds
  rw [h.scoreDelta]
  omega

end Finding

theorem weight_le_of_sublist {fs gs : List Finding} (h : fs.Sublist gs) :
    weight fs ≤ weight gs :=
  (h.map _).sum_le_sum fun _ _ => Nat.zero_le _

theorem weight_eq_zero_iff {fs : List Finding} (h : ∀ f ∈ fs, f.IsListed) :
    weight fs = 0 ↔ fs = [] := by
  constructor
  · intro hzero
    cases fs with
    | nil => rfl
    | cons f fs =>
      have hpos := (h f List.mem_cons_self).natAbs_scoreDelta.1
      rw [weight_cons] at hzero
      omega
  · rintro rfl
    rfl

theorem sum_countP_severity (fs : List Finding) :
    fs.countP (·.severity = .error) + fs.countP (·.severity = .warning) +
      fs.countP (·.severity = .info) = fs.length := by
  induction fs with
  | nil => rfl
  | cons f fs ih =>
    simp only [List.countP_cons, List.length_cons]
    cases f.severity <;> simp <;> omega

namespace Analysis

variable {fs : List Finding}

theorem total_ofFindings (fs : List Finding) : (ofFindings fs).counts.total = fs.length := by
  have herror := counts_ofFindings fs .error
  have hwarning := counts_ofFindings fs .warning
  have hinfo := counts_ofFindings fs .info
  simp only [Tally.get] at herror hwarning hinfo
  rw [Tally.total, Tally.issues, herror, hwarning, hinfo, sum_countP_severity]

/-- As long as there are fewer findings than words, they can be counted in words. -/
theorem foldlM_increment?_ofFindings (h : fs.length < 2 ^ 64) :
    fs.foldlM (fun t f => t.increment? f.severity) .zero = some (ofFindings fs).counts :=
  Tally.foldlM_increment? fs ((Nat.zero_add fs.length).symm ▸ h)

theorem score_ofFindings_bounds (fs : List Finding) :
    0 ≤ (ofFindings fs).score ∧ (ofFindings fs).score ≤ 100 := by
  rw [score_ofFindings]
  unfold maxScore
  omega

theorem score_ofFindings_eq_iff (h : ∀ f ∈ fs, f.IsListed) :
    (ofFindings fs).score = 100 ↔ fs = [] := by
  rw [← weight_eq_zero_iff h, score_ofFindings]
  unfold maxScore
  omega

/-- Findings that are left out leave the score as it is or higher. -/
theorem score_ofFindings_le_of_sublist {gs : List Finding} (h : fs.Sublist gs) :
    (ofFindings gs).score ≤ (ofFindings fs).score := by
  have hle := weight_le_of_sublist h
  rw [score_ofFindings, score_ofFindings]
  unfold maxScore
  omega

theorem score_ofFindings_le {gs : List Finding} (h : fs <+: gs) :
    (ofFindings gs).score ≤ (ofFindings fs).score :=
  score_ofFindings_le_of_sublist h.sublist

/-- What is taken off for a finding, and what is left before this is held above zero. -/
theorem isWord32_lower {f : Finding} (h : f.IsListed) (fs : List Finding) :
    IsWord32 f.scoreDelta.natAbs ∧ IsWord32 ((ofFindings fs).score - f.scoreDelta.natAbs) := by
  have hdelta := h.natAbs_scoreDelta
  have hscore := score_ofFindings_bounds fs
  unfold IsWord32
  omega

end Analysis

namespace Source

/-- A script in which several rules find something, two of them on the same line. -/
def indented : Source := ⟨.ofString "/a.py", "#\n \tsys.exit"⟩

def findingsIndented : List Finding :=
  [⟨.error, .missingEmail, 1, "the author e-mail is missing", -15⟩,
    ⟨.warning, .sysExit, 2, "sys.exit() causes WeeChat to exit itself", -10⟩,
    ⟨.warning, .mixedTabsSpaces, 2, "mixed tabs and spaces are used for indentation", -5⟩,
    ⟨.info, .missingSpdxCopyright, 1,
      "the SPDX copyright tag \"SPDX-FileCopyrightText\" is missing", -1⟩,
    ⟨.info, .missingSpdxLicense, 1,
      "the SPDX license tag \"SPDX-License-Identifier\" is missing", -1⟩]

theorem findings_indented : indented.findings = .ok findingsIndented := by decide +kernel

end Source

namespace Script

/-- The states of a script: as it is opened, and after each check. -/
inductive Reached : Script → Prop where
  | opened (s : Source) (o : Options) : Reached (ofSource s o)
  | checked {t t' : Script} (h : Reached t) (hcheck : t.check = .ok t') : Reached t'

/-- A check does not look at what was found before. -/
theorem check_eq_check_ofSource (t : Script) : t.check = (ofSource t.source t.options).check := rfl

theorem exists_check_eq (t : Script) : ∃ fs, t.source.findings = .ok fs ∧
    t.check = .ok ⟨t.source, t.options,
      .ofFindings (fs.filter fun f => t.options.keeps f.rule f.severity)⟩ := by
  obtain ⟨fs, hfs, hcheck⟩ := exists_check t.source
  exact ⟨fs, hfs, (check_eq_check_ofSource t).trans (hcheck t.options)⟩

/-- A state holds some of the findings on the source, in their order, and nothing else. -/
theorem Reached.exists_findings {t : Script} (h : t.Reached) :
    ∃ fs kept, t.source.findings = .ok fs ∧ kept.Sublist fs ∧ t.analysis = .ofFindings kept := by
  cases h with
  | opened s o =>
    obtain ⟨fs, hfs⟩ := s.exists_findings
    exact ⟨fs, [], hfs, List.nil_sublist fs, rfl⟩
  | checked h hcheck =>
    obtain ⟨fs, hfs, heq⟩ := exists_check_eq _
    obtain rfl := Except.ok.inj (heq.symm.trans hcheck)
    exact ⟨fs, _, hfs, List.filter_sublist, rfl⟩

theorem Reached.exists_listed {t : Script} (h : t.Reached) :
    ∃ kept, (∀ f ∈ kept, f.IsListed) ∧ t.analysis = .ofFindings kept := by
  obtain ⟨fs, kept, hfs, hkept, hanalysis⟩ := h.exists_findings
  exact ⟨kept, fun f hf => Source.isListed_of_mem_findings hfs (hkept.subset hf), hanalysis⟩

/-- The findings, their numbers and the score fit together. -/
structure Consistent (t : Script) : Prop where
  tally : ∀ v, t.analysis.counts.get v = t.analysis.findings.countP (·.severity = v)
  total : t.analysis.counts.total = t.analysis.findings.length
  /-- In memory there is no text on which an addition could leave the words. -/
  exact : t.source.text.utf8ByteSize < 2 ^ 63 →
    t.analysis.findings.foldlM (fun counts f => counts.increment? f.severity) .zero =
      some t.analysis.counts ∧
    t.analysis.counts.total? = some t.analysis.findings.length
  listed : ∀ f ∈ t.analysis.findings, f.IsListed
  score : t.analysis.score = max 0 (100 - (weight t.analysis.findings : Int))
  bounds : 0 ≤ t.analysis.score ∧ t.analysis.score ≤ 100
  /-- No step of the score leaves the signed 32-bit words. -/
  steps : ∀ before f, before ++ [f] <+: t.analysis.findings → IsWord32 f.scoreDelta.natAbs ∧
    IsWord32 ((Analysis.ofFindings before).score - f.scoreDelta.natAbs)
  falling : ∀ before longer, before <+: longer → longer <+: t.analysis.findings →
    (Analysis.ofFindings longer).score ≤ (Analysis.ofFindings before).score
  full : t.analysis.score = 100 ↔ t.analysis.findings = []

/-- In each of its states a script is consistent and can be checked. -/
theorem Reached.consistent {t : Script} (h : t.Reached) : (∃ t', t.check = .ok t') ∧ t.Consistent := by
  obtain ⟨fs, kept, hfs, hkept, hanalysis⟩ := h.exists_findings
  have hlisted : ∀ f ∈ kept, f.IsListed := fun f hf =>
    Source.isListed_of_mem_findings hfs (hkept.subset hf)
  have hlength (hsize : t.source.text.utf8ByteSize < 2 ^ 63) : kept.length < 2 ^ 64 :=
    Nat.lt_of_le_of_lt hkept.length_le (Source.length_findings_lt hsize hfs)
  have hfindings : t.analysis.findings = kept := congrArg Analysis.findings hanalysis
  obtain ⟨_, _, hcheck⟩ := exists_check_eq t
  refine ⟨⟨_, hcheck⟩, ?_⟩
  exact {
    tally := fun v => by rw [hanalysis]; exact Analysis.counts_ofFindings kept v
    total := by rw [hanalysis]; exact Analysis.total_ofFindings kept
    exact := fun hsize => by
      have htotal := Analysis.total_ofFindings kept
      rw [hanalysis]
      exact ⟨Analysis.foldlM_increment?_ofFindings (hlength hsize),
        Tally.total?_eq_some_iff.mpr ⟨by rw [htotal]; exact hlength hsize, htotal⟩⟩
    listed := by rw [hfindings]; exact hlisted
    score := by rw [hanalysis]; exact Analysis.score_ofFindings kept
    bounds := by rw [hanalysis]; exact Analysis.score_ofFindings_bounds kept
    steps := fun before f hstarts => by
      rw [hfindings] at hstarts
      exact Analysis.isWord32_lower (hlisted f (hstarts.subset (by simp))) before
    falling := fun before longer hstarts _ => Analysis.score_ofFindings_le hstarts
    full := by rw [hanalysis]; exact Analysis.score_ofFindings_eq_iff hlisted }

/-- The indented script as a check leaves it. -/
def checkedIndented (o : Options) : Script :=
  ⟨.indented, o, .ofFindings (Source.findingsIndented.filter fun f => o.keeps f.rule f.severity)⟩

theorem check_indented (o : Options) : (ofSource .indented o).check = .ok (checkedIndented o) :=
  check_of_findings Source.findings_indented o

theorem reached_checkedIndented (o : Options) : (checkedIndented o).Reached :=
  .checked (.opened _ _) (check_indented o)

/-- The script after it has been checked twice. -/
theorem Reached.consistent_checkedIndented :
    let t := checkedIndented .standard
    t.check = .ok t ∧ t.Reached ∧ (∃ t', t.check = .ok t') ∧ t.Consistent ∧ t.analysis.score = 68 :=
  have hagain : (checkedIndented .standard).check = .ok (checkedIndented .standard) :=
    check_indented .standard
  have h : (checkedIndented .standard).Reached :=
    .checked (reached_checkedIndented .standard) hagain
  ⟨hagain, h, h.consistent.1, h.consistent.2, by decide⟩

end Script
end ScriptAudit
