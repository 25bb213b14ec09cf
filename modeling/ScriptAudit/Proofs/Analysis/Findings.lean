import ScriptAudit.Analysis.Check
import ScriptAudit.Proofs.Traversal

/-! # All findings on a source

The findings of the rules that apply, in the order of the table, before the options leave any of
them out. Main statement: `analyze_eq`, by which an analysis takes these findings in one by one,
and fails where they cannot be had.
-/
namespace ScriptAudit

/-- A finding says what the catalog has on its rule, with the template filled. -/
theorem Finding.ofRule_eq_ok_iff {rule : RuleName} {line : Nat} {filling : Filling} {f : Finding} :
    ofRule rule line filling = .ok f ↔ ∃ text, Template.fill rule.entry.template filling = .ok text ∧
      f = ⟨rule.entry.severity, rule, line, text, rule.entry.scoreDelta⟩ := by
  unfold ofRule RuleName.format
  cases Template.fill rule.entry.template filling with
  | error slot =>
    constructor
    · intro h
      cases h
    · rintro ⟨_, h, _⟩
      cases h
  | ok text =>
    constructor
    · intro h
      exact ⟨text, rfl, (Except.ok.inj h).symm⟩
    · rintro ⟨_, h, rfl⟩
      cases h
      rfl

theorem Finding.eq_of_ofRule {rule : RuleName} {line : Nat} {filling : Filling} {f : Finding}
    (h : ofRule rule line filling = .ok f) :
    f.rule = rule ∧ f.line = line ∧ f.severity = rule.entry.severity := by
  obtain ⟨_, _, rfl⟩ := ofRule_eq_ok_iff.mp h
  exact ⟨rfl, rfl, rfl⟩

namespace Finding

/-- What the catalog says on the rule of the finding, with the template filled in some way. -/
structure IsListed (f : Finding) : Prop where
  severity : f.severity = f.rule.entry.severity
  scoreDelta : f.scoreDelta = f.rule.entry.scoreDelta
  text : ∃ filling, f.rule.format filling = .ok f.text

theorem isListed_of_ofRule {rule : RuleName} {line : Nat} {filling : Filling} {f : Finding}
    (h : ofRule rule line filling = .ok f) : f.IsListed := by
  obtain ⟨text, htext, hf⟩ := bind_eq_ok_iff.mp h
  obtain rfl := Except.ok.inj hf
  exact ⟨rfl, rfl, filling, htext⟩

end Finding

def Rule.findings (r : Rule) (s : Source) : Except Fault (List Finding) :=
  if !r.appliesTo s then .ok []
  else if r.name.entry.severity ≠ r.severity then
    .error (.severityMismatch r.name r.severity r.name.entry.severity)
  else match r.detect s with
    | .error cause => .error (.ruleFailed r.name cause)
    | .ok hits => hits.mapM fun h => Finding.ofRule r.name h.line h.filling

theorem Rule.mem_findings_iff {r : Rule} {s : Source} {fs : List Finding}
    (h : r.findings s = .ok fs) {f : Finding} :
    f ∈ fs ↔ r.appliesTo s = true ∧ ∃ hits, r.detect s = .ok hits ∧
      ∃ hit ∈ hits, Finding.ofRule r.name hit.line hit.filling = .ok f := by
  unfold findings at h
  cases happ : r.appliesTo s with
  | false =>
    simp only [happ, Bool.not_false, if_true] at h
    cases h
    simp
  | true =>
    simp only [happ, Bool.not_true, Bool.false_eq_true, if_false] at h
    split at h
    · cases h
    · cases hd : r.detect s with
      | error cause => simp [hd] at h
      | ok hits =>
        simp only [hd] at h
        simp [mem_of_mapM_eq_ok h]

def Source.findings (s : Source) : Except Fault (List Finding) :=
  if s.text.isEmpty then (fun f => [f]) <$> Finding.ofRule .emptyFile 1 .none
  else List.flatten <$> Rule.table.mapM (·.findings s)

namespace Analysis

theorem runRule_eq (o : Options) (s : Source) (a : Analysis) (r : Rule) :
    runRule o s a r = (fun fs => fs.foldl (add o) a) <$> r.findings s := by
  unfold runRule Rule.findings
  split
  · rfl
  · split
    · rfl
    · cases r.detect s with
      | error cause => rfl
      | ok hits =>
        exact foldlM_map_eq (fun h : Hit => Finding.ofRule r.name h.line h.filling) (add o) hits a

end Analysis

namespace Source

theorem analyze_eq (s : Source) (o : Options) :
    s.analyze o = (fun fs => fs.foldl (Analysis.add o) .fresh) <$> s.findings := by
  unfold analyze findings
  split
  · cases h : Finding.ofRule .emptyFile 1 .none with
    | error e => simp [Analysis.addHit, Hit.at, h]
    | ok f => simp [Analysis.addHit, Hit.at, h]
  · have hrun : Analysis.runRule o s = fun a r =>
        (fun a fs => fs.foldl (Analysis.add o) a) a <$> r.findings s := by
      funext a r
      exact Analysis.runRule_eq o s a r
    rw [hrun, foldlM_map_eq]
    cases Rule.table.mapM (·.findings s) with
    | error e => rfl
    | ok fss => exact congrArg Except.ok List.foldl_flatten.symm

theorem findings_of_isEmpty {s : Source} (h : s.text.isEmpty = true) :
    s.findings = (fun f => [f]) <$> Finding.ofRule .emptyFile 1 .none := by
  simp only [findings, h, if_true]

theorem findings_of_not_isEmpty {s : Source} (h : s.text.isEmpty = false) :
    s.findings = List.flatten <$> Rule.table.mapM (·.findings s) := by
  simp only [findings, h, Bool.false_eq_true, if_false]

/-- The findings on a text that is not empty come from the hits of the rules that apply. -/
theorem mem_findings_iff {s : Source} (hne : s.text.isEmpty = false) {fs : List Finding}
    (h : s.findings = .ok fs) {f : Finding} :
    f ∈ fs ↔ ∃ r ∈ Rule.table, r.appliesTo s = true ∧ ∃ hits, r.detect s = .ok hits ∧
      ∃ hit ∈ hits, Finding.ofRule r.name hit.line hit.filling = .ok f := by
  rw [findings_of_not_isEmpty hne] at h
  obtain ⟨fss, hfss, rfl⟩ := map_eq_ok_iff.mp h
  rw [List.mem_flatten]
  constructor
  · rintro ⟨gs, hgs, hf⟩
    obtain ⟨r, hr, hgs⟩ := (mem_of_mapM_eq_ok hfss).mp hgs
    exact ⟨r, hr, (Rule.mem_findings_iff hgs).mp hf⟩
  · rintro ⟨r, hr, hf⟩
    obtain ⟨gs, hgs, hr⟩ := exists_mem_of_mapM_eq_ok hfss hr
    exact ⟨gs, hgs, (Rule.mem_findings_iff hr).mpr hf⟩

theorem isListed_of_mem_findings {s : Source} {fs : List Finding} (h : s.findings = .ok fs)
    {f : Finding} (hf : f ∈ fs) : f.IsListed := by
  cases hempty : s.text.isEmpty with
  | true =>
    rw [findings_of_isEmpty hempty] at h
    obtain ⟨g, hg, rfl⟩ := map_eq_ok_iff.mp h
    rw [List.mem_singleton.mp hf]
    exact Finding.isListed_of_ofRule hg
  | false =>
    obtain ⟨r, _, _, hits, _, hit, _, hof⟩ := (mem_findings_iff hempty h).mp hf
    exact Finding.isListed_of_ofRule hof

end Source
end ScriptAudit
