import ScriptAudit.Proofs.Analysis.Totality

/-! # Filtering findings

The options are asked about each finding while the counts and the score are running. Main
statement: `Script.exists_check`, by which this gives what one would get by filtering all findings
first and counting and scoring those that remain.
-/
namespace ScriptAudit

/-- How much the findings take from a score. -/
def weight (fs : List Finding) : Nat := (fs.map (·.scoreDelta.natAbs)).sum

theorem weight_cons (f : Finding) (fs : List Finding) :
    weight (f :: fs) = f.scoreDelta.natAbs + weight fs := by
  simp [weight]

theorem Options.keeps_eq_true_iff {o : Options} {f : Finding} :
    o.keeps f.rule f.severity = true ↔ f.rule ∉ o.ignored ∧ f.severity ≤ o.level := by
  simp [keeps, Severity.isShownAt]

theorem Options.keeps_everything (colors : Bool) (f : Finding) :
    keeps ⟨[], .info, colors⟩ f.rule f.severity = true := by
  rw [keeps_eq_true_iff]
  refine ⟨List.not_mem_nil, ?_⟩
  change f.severity ≤ .info
  cases f.severity <;> decide

namespace Tally

theorem get_increment (t : Tally) (u v : Severity) :
    (t.increment u).get v = t.get v + if u = v then 1 else 0 := by
  cases u <;> cases v <;> simp [increment, get]

/-- The counts go up by the number of findings of each severity. -/
theorem get_foldl_increment (fs : List Finding) (t : Tally) (v : Severity) :
    (fs.foldl (fun t f => t.increment f.severity) t).get v =
      t.get v + fs.countP (·.severity = v) := by
  induction fs generalizing t with
  | nil => simp
  | cons f fs ih =>
    rw [List.foldl_cons, ih, get_increment, List.countP_cons]
    by_cases h : f.severity = v
    · simp only [h, if_true, decide_true]
      omega
    · simp [h]

/-- In words the counts go up in the same way, if there is room for all findings. -/
theorem foldlM_increment? (fs : List Finding) {t : Tally} (h : t.total + fs.length < UInt64.size) :
    fs.foldlM (fun t f => t.increment? f.severity) t =
      some (fs.foldl (fun t f => t.increment f.severity) t) := by
  induction fs generalizing t with
  | nil => rfl
  | cons f fs ih =>
    have htotal := t.total_increment f.severity
    rw [List.length_cons] at h
    have hstep : t.increment? f.severity = some (t.increment f.severity) :=
      increment?_eq_some (by omega)
    rw [List.foldlM_cons, hstep, List.foldl_cons]
    exact ih (by omega)

end Tally

namespace Analysis

/-- A score that is held above zero at every finding is the weight taken off at once. -/
theorem foldl_lower (fs : List Finding) {score : Int} (h : 0 ≤ score) :
    fs.foldl lower score = max 0 (score - weight fs) := by
  induction fs generalizing score with
  | nil =>
    simp only [List.foldl_nil, weight, List.map_nil, List.sum_nil]
    omega
  | cons f fs ih =>
    have hstep : 0 ≤ lower score f := Int.le_max_right ..
    rw [List.foldl_cons, ih hstep, weight_cons]
    unfold lower
    omega

/-- Taking findings in one by one leaves those out that the options do not keep. -/
theorem foldl_add (o : Options) (fs : List Finding) (a : Analysis) :
    fs.foldl (add o) a =
      let kept := fs.filter fun f => o.keeps f.rule f.severity
      ⟨a.findings ++ kept, kept.foldl (fun t f => t.increment f.severity) a.counts,
        kept.foldl lower a.score⟩ := by
  induction fs generalizing a with
  | nil => simp
  | cons f fs ih =>
    rw [List.foldl_cons, ih]
    by_cases h : o.keeps f.rule f.severity = true
    · simp [add, h]
    · simp [add, h]

/-- What an analysis holds that has taken in all of the findings. -/
def ofFindings (fs : List Finding) : Analysis :=
  ⟨fs, fs.foldl (fun t f => t.increment f.severity) .zero, fs.foldl lower maxScore⟩

theorem foldl_add_fresh (o : Options) (fs : List Finding) :
    fs.foldl (add o) .fresh = ofFindings (fs.filter fun f => o.keeps f.rule f.severity) := by
  rw [foldl_add]
  rfl

theorem counts_ofFindings (fs : List Finding) (v : Severity) :
    (ofFindings fs).counts.get v = fs.countP (·.severity = v) := by
  have hzero : Tally.zero.get v = 0 := by cases v <;> rfl
  rw [ofFindings, Tally.get_foldl_increment, hzero, Nat.zero_add]

theorem score_ofFindings (fs : List Finding) :
    (ofFindings fs).score = max 0 (maxScore - (weight fs : Int)) :=
  foldl_lower fs (by decide)

end Analysis

/-- A check keeps what the options keep of the findings on the source. -/
theorem Script.exists_check (s : Source) : ∃ fs, s.findings = .ok fs ∧ ∀ o,
    (ofSource s o).check =
      .ok ⟨s, o, .ofFindings (fs.filter fun f => o.keeps f.rule f.severity)⟩ := by
  obtain ⟨fs, hfs, hanalyze⟩ := s.exists_findings_analyze
  refine ⟨fs, hfs, ?_⟩
  intro o
  rw [check_ofSource (hanalyze o), Analysis.foldl_add_fresh]

theorem Script.check_of_findings {s : Source} {fs : List Finding} (h : s.findings = .ok fs)
    (o : Options) : (ofSource s o).check =
      .ok ⟨s, o, .ofFindings (fs.filter fun f => o.keeps f.rule f.severity)⟩ := by
  obtain ⟨_, hfs, hcheck⟩ := exists_check s
  obtain rfl := Except.ok.inj (h.symm.trans hfs)
  exact hcheck o

/-- A script checked with options has the findings, in their order, that are kept of those it has
without any filter. They alone are counted, and they alone are taken from the score. -/
theorem Source.check_filter (s : Source) (o : Options) (colors : Bool) :
    ∃ all t : Script,
      (Script.ofSource s ⟨[], .info, colors⟩).check = .ok all ∧
      (Script.ofSource s o).check = .ok t ∧
      t.analysis.findings = all.analysis.findings.filter
        (fun f => f.rule ∉ o.ignored ∧ f.severity ≤ o.level) ∧
      (∀ v, t.analysis.counts.get v = t.analysis.findings.countP (·.severity = v)) ∧
      t.analysis.score = max 0 (100 - (weight t.analysis.findings : Int)) ∧
      (s.text = "" → ∃ f, all.analysis.findings = [f] ∧ f.rule = .emptyFile) := by
  obtain ⟨fs, hfs, hcheck⟩ := Script.exists_check s
  have hall : fs.filter (fun f => (⟨[], .info, colors⟩ : Options).keeps f.rule f.severity) = fs :=
    List.filter_eq_self.mpr fun f _ => Options.keeps_everything colors f
  have hkeeps : (fun f : Finding => o.keeps f.rule f.severity) =
      fun f => decide (f.rule ∉ o.ignored ∧ f.severity ≤ o.level) := by
    funext f
    rw [Bool.eq_iff_iff, Options.keeps_eq_true_iff, decide_eq_true_iff]
  refine ⟨_, _, hcheck _, hcheck o, ?_, Analysis.counts_ofFindings _, Analysis.score_ofFindings _, ?_⟩
  · change fs.filter _ = List.filter _ (fs.filter _)
    rw [hall, hkeeps]
  · intro hempty
    rw [findings_of_isEmpty (by rw [hempty]; rfl)] at hfs
    obtain ⟨f, hf, rfl⟩ := map_eq_ok_iff.mp hfs
    refine ⟨f, hall, ?_⟩
    obtain ⟨text, _, rfl⟩ := Finding.ofRule_eq_ok_iff.mp hf
    rfl

end ScriptAudit
