import ScriptAudit.Proofs.Analysis.States
import ScriptAudit.Summary.Basic

/-! # What a summary adds up to

A summary takes in scripts in any of their states. Its totals are sums, and the status line and the
exit codes speak of the same scripts as the scores do. As long as all findings together can be
counted in a 64-bit word, no addition leaves the words. Main statements: `get_counts`, `says_iff`
and `sums_ofScripts`.
-/
namespace ScriptAudit

namespace Tally

theorem get_merge (t u : Tally) (v : Severity) : (t.merge u).get v = t.get v + u.get v := by
  cases v <;> rfl

theorem get_zero (v : Severity) : zero.get v = 0 := by
  cases v <;> rfl

theorem merge_assoc (t u w : Tally) : (t.merge u).merge w = t.merge (u.merge w) := by
  simp [merge, Nat.add_assoc]

theorem merge_comm (t u : Tally) : t.merge u = u.merge t := by
  simp [merge, Nat.add_comm]

theorem foldl_merge (ts : List Tally) (t u : Tally) :
    ts.foldl merge (t.merge u) = t.merge (ts.foldl merge u) := by
  induction ts generalizing u with
  | nil => rfl
  | cons w ts ih => rw [List.foldl_cons, List.foldl_cons, merge_assoc, ih]

end Tally

namespace Summary

/-- The number of all findings on the scripts. -/
def findingCount (ts : List Script) : Nat := (ts.map (·.analysis.findings.length)).sum

/-- The number of findings of one severity on the scripts. -/
def severityCount (ts : List Script) (v : Severity) : Nat :=
  (ts.map fun t => t.analysis.findings.countP (·.severity = v)).sum

variable {ts : List Script}

theorem scripts_foldl_add (ts : List Script) (u : Summary) :
    (ts.foldl add u).scripts = u.scripts + ts.length := by
  induction ts generalizing u with
  | nil => rfl
  | cons t ts ih =>
    rw [List.foldl_cons, ih, List.length_cons]
    simp only [add]
    omega

theorem withIssues_foldl_add (ts : List Script) (u : Summary) :
    (ts.foldl add u).withIssues =
      u.withIssues + ts.countP fun t => !t.analysis.findings.isEmpty := by
  induction ts generalizing u with
  | nil => rfl
  | cons t ts ih =>
    rw [List.foldl_cons, ih, List.countP_cons]
    simp only [add]
    cases t.analysis.findings.isEmpty with
    | true => simp
    | false =>
      simp only [Bool.false_eq_true, if_false, Bool.not_false, if_true]
      omega

theorem scores_foldl_add (ts : List Script) (u : Summary) :
    (ts.foldl add u).scores = u.scores ++ ts.map fun t => (t.path, t.analysis.score) := by
  induction ts generalizing u with
  | nil => simp
  | cons t ts ih =>
    rw [List.foldl_cons, ih, add, List.append_assoc]
    rfl

theorem counts_foldl_add (ts : List Script) (u : Summary) :
    (ts.foldl add u).counts = (ts.map (·.analysis.counts)).foldl Tally.merge u.counts := by
  induction ts generalizing u with
  | nil => rfl
  | cons t ts ih => exact ih (u.add t)

theorem total_le_foldl_add (ts : List Script) (u : Summary) :
    u.counts.total ≤ (ts.foldl add u).counts.total := by
  induction ts generalizing u with
  | nil => exact Nat.le_refl _
  | cons t ts ih =>
    have hstep : (u.add t).counts.total = u.counts.total + t.analysis.counts.total :=
      Tally.total_merge _ _
    have hle := ih (u.add t)
    rw [List.foldl_cons]
    omega

theorem get_foldl_add (ts : List Script) (u : Summary) (v : Severity) :
    (ts.foldl add u).counts.get v =
      u.counts.get v + (ts.map fun t => t.analysis.counts.get v).sum := by
  induction ts generalizing u with
  | nil => simp
  | cons t ts ih =>
    rw [List.foldl_cons, ih, List.map_cons, List.sum_cons, add, Tally.get_merge, Nat.add_assoc]

theorem severityCount_add (ts : List Script) :
    severityCount ts .error + severityCount ts .warning + severityCount ts .info =
      findingCount ts := by
  induction ts with
  | nil => rfl
  | cons t ts ih =>
    have hsum := sum_countP_severity t.analysis.findings
    simp only [severityCount, findingCount, List.map_cons, List.sum_cons] at ih ⊢
    omega

theorem findingCount_eq_zero_iff : findingCount ts = 0 ↔ ∀ t ∈ ts, t.analysis.findings = [] := by
  simp [findingCount, List.sum_eq_zero_iff_forall_eq_nat]

/-- The counts of scripts that have been checked or not are numbers of findings. -/
theorem sum_counts_eq (h : ∀ t ∈ ts, t.Reached) (v : Severity) :
    (ts.map fun t => t.analysis.counts.get v).sum = severityCount ts v := by
  unfold severityCount
  congr 1
  apply List.map_congr_left
  intro t ht
  obtain ⟨kept, _, hanalysis⟩ := (h t ht).exists_listed
  rw [hanalysis]
  exact Analysis.counts_ofFindings kept v

/-- The summary of scripts taken in one after the other. -/
def ofScripts (ts : List Script) : Summary := ts.foldl add empty

theorem get_counts (h : ∀ t ∈ ts, t.Reached) (v : Severity) :
    (ofScripts ts).counts.get v = severityCount ts v := by
  have hzero : empty.counts.get v = 0 := Tally.get_zero v
  rw [ofScripts, get_foldl_add, sum_counts_eq h, hzero, Nat.zero_add]

/-! The status line. -/

/-- The words that a status line can start with. -/
def verdicts : List String :=
  ["No scripts analyzed", "Perfect", "Almost good", "Not so good", "FAILED"]

def verdict (u : Summary) : String :=
  if u.scripts = 0 then nothingAnalyzed else (status u.counts).1

/-- A word as it is, and in each of the colors. -/
def faces (word : String) : List String :=
  word :: [Color.red, .green, .yellow, .cyan].map (·.bold word)

/-- The status line starts with the word, in some color or in none. -/
def Says (u : Summary) (colors : Bool) (word : String) : Prop :=
  ∃ face ∈ faces word, face.toList <+: (u.statusLine colors).toList

theorem verdict_mem_verdicts (u : Summary) : u.verdict ∈ verdicts := by
  unfold verdict status statusOf
  repeat' split
  all_goals simp [verdicts, nothingAnalyzed]

theorem boldIf_mem_faces (c : Color) (colors : Bool) (word : String) :
    c.boldIf colors word ∈ faces word := by
  unfold Color.boldIf faces
  cases colors <;> cases c <;> simp

theorem isPrefix_lineOf (u : Summary) (colors : Bool) (status : String × Color) :
    (status.2.boldIf colors status.1).toList <+: (u.lineOf colors status).toList := by
  unfold lineOf
  simp only [String.toList_append, List.append_assoc]
  exact List.prefix_append _ _

theorem says_verdict (u : Summary) (colors : Bool) : u.Says colors u.verdict := by
  unfold Says verdict statusLine
  split
  · exact ⟨_, List.mem_cons_self, List.prefix_refl _⟩
  · exact ⟨_, boldIf_mem_faces (status u.counts).2 colors _, u.isPrefix_lineOf colors _⟩

/-- No two words start alike, whatever their colors. -/
theorem eq_of_isPrefix_faces : ∀ word ∈ verdicts, ∀ other ∈ verdicts, ∀ face ∈ faces word,
    ∀ face' ∈ faces other, face.toList <+: face'.toList → word = other := by
  decide +kernel

theorem says_iff {word : String} (hword : word ∈ verdicts) (u : Summary) (colors : Bool) :
    u.Says colors word ↔ u.verdict = word := by
  constructor
  · rintro ⟨face, hface, hstarts⟩
    obtain ⟨face', hface', hstarts'⟩ := u.says_verdict colors
    have hverdict := u.verdict_mem_verdicts
    rcases List.prefix_or_prefix_of_prefix hstarts hstarts' with h | h
    · exact (eq_of_isPrefix_faces _ hword _ hverdict _ hface _ hface' h).symm
    · exact eq_of_isPrefix_faces _ hverdict _ hword _ hface' _ hface h
  · rintro rfl
    exact u.says_verdict colors

/-- The words, from the best to the worst, and what has been counted for each of them. -/
theorem verdict_cases (u : Summary) :
    (u.scripts = 0 ∧ u.verdict = "No scripts analyzed") ∨
    (u.scripts ≠ 0 ∧ u.counts.total = 0 ∧ u.verdict = "Perfect") ∨
    (u.scripts ≠ 0 ∧ u.counts.total ≠ 0 ∧ u.counts.issues = 0 ∧
      u.verdict = "Almost good") ∨
    (u.scripts ≠ 0 ∧ u.counts.total ≠ 0 ∧ u.counts.issues ≠ 0 ∧
      u.counts.error = 0 ∧ u.verdict = "Not so good") ∨
    (u.scripts ≠ 0 ∧ u.counts.total ≠ 0 ∧ u.counts.issues ≠ 0 ∧
      u.counts.error ≠ 0 ∧ u.verdict = "FAILED") := by
  unfold verdict status statusOf nothingAnalyzed
  by_cases hscripts : u.scripts = 0
  · simp [hscripts]
  by_cases htotal : u.counts.total = 0
  · simp [hscripts, htotal]
  by_cases hissues : u.counts.issues = 0
  · simp [hscripts, htotal, hissues]
  by_cases herror : u.counts.error = 0
  · simp [hscripts, htotal, hissues, herror]
  · simp [hscripts, htotal, hissues, herror]

theorem says_none_iff (u : Summary) (colors : Bool) :
    u.Says colors "No scripts analyzed" ↔ u.scripts = 0 := by
  rw [says_iff (by simp [verdicts])]
  rcases u.verdict_cases with h | h | h | h | h <;> simp [h]

theorem says_perfect_iff (u : Summary) (colors : Bool) :
    u.Says colors "Perfect" ↔ u.scripts ≠ 0 ∧ u.counts.total = 0 := by
  rw [says_iff (by simp [verdicts])]
  rcases u.verdict_cases with h | h | h | h | h <;> simp [h]

theorem says_almost_iff (u : Summary) (colors : Bool) :
    u.Says colors "Almost good" ↔
      u.scripts ≠ 0 ∧ u.counts.total ≠ 0 ∧ u.counts.issues = 0 := by
  rw [says_iff (by simp [verdicts])]
  rcases u.verdict_cases with h | h | h | ⟨_, _, hissues, _, hword⟩ | h
  case inr.inr.inr.inl => simp [hword, hissues]
  all_goals simp [h]

theorem says_failed_iff (u : Summary) (colors : Bool) :
    u.Says colors "FAILED" ↔ u.scripts ≠ 0 ∧ u.counts.total ≠ 0 ∧
      u.counts.issues ≠ 0 ∧ u.counts.error ≠ 0 := by
  rw [says_iff (by simp [verdicts])]
  rcases u.verdict_cases with h | h | h | h | h <;> simp [h]

/-! The exit codes. -/

section ExitCode

variable {u : Summary}

/-- Without scripts nothing has been counted. -/
theorem says_failed_iff_exitCode (hnone : u.scripts = 0 → u.counts.total = 0)
    (colors : Bool) : u.Says colors "FAILED" ↔ 0 < u.exitCode false := by
  have hcode : u.exitCode false = min u.counts.error 255 := rfl
  rw [says_failed_iff, hcode]
  simp only [Tally.total, Tally.issues] at *
  omega

theorem exitCode_true_eq_zero_iff (hnone : u.scripts = 0 → u.counts.total = 0) (colors : Bool) :
    u.exitCode true = 0 ↔ u.Says colors "No scripts analyzed" ∨ u.Says colors "Perfect" ∨
      u.Says colors "Almost good" := by
  have hcode : u.exitCode true = min u.counts.issues 255 := rfl
  rw [hcode, says_none_iff, says_perfect_iff, says_almost_iff]
  simp only [Tally.total, Tally.issues] at *
  omega

theorem exitCode_bounds (u : Summary) :
    u.exitCode false ≤ u.exitCode true ∧ u.exitCode true ≤ 255 := by
  have hfalse : u.exitCode false = min u.counts.error 255 := rfl
  have htrue : u.exitCode true = min (u.counts.error + u.counts.warning) 255 := rfl
  omega

end ExitCode

/-! Scripts in states that they can reach. -/

section Reached

variable (h : ∀ t ∈ ts, t.Reached)
include h

theorem total_counts : (ofScripts ts).counts.total = findingCount ts := by
  have herror := get_counts h .error
  have hwarning := get_counts h .warning
  have hinfo := get_counts h .info
  simp only [Tally.get] at herror hwarning hinfo
  rw [Tally.total, Tally.issues, herror, hwarning, hinfo, severityCount_add]

theorem total_counts_eq_zero_iff :
    (ofScripts ts).counts.total = 0 ↔ ∀ t ∈ ts, t.analysis.findings = [] := by
  rw [total_counts h, findingCount_eq_zero_iff]

end Reached

/-- In words scripts are taken in as they are without, if there is room for them and for their
findings. -/
theorem foldlM_add? (ts : List Script) {u : Summary} (hissues : u.withIssues ≤ u.scripts)
    (hscripts : u.scripts + ts.length < UInt64.size)
    (hcounts : (ts.foldl add u).counts.total < UInt64.size) :
    ts.foldlM add? u = some (ts.foldl add u) := by
  induction ts generalizing u with
  | nil => rfl
  | cons t ts ih =>
    rw [List.length_cons] at hscripts
    have hle : (u.add t).counts.total ≤ (ts.foldl add (u.add t)).counts.total :=
      total_le_foldl_add ts _
    rw [List.foldl_cons] at hcounts
    have hstep : u.add? t = some (u.add t) :=
      add?_eq_some (by omega) hissues (Nat.lt_of_le_of_lt hle hcounts)
    have hissues' : (u.add t).withIssues ≤ (u.add t).scripts := by
      simp only [add]
      split <;> omega
    have hscripts' : (u.add t).scripts + ts.length < UInt64.size := by
      simp only [add]
      omega
    rw [List.foldlM_cons, hstep, List.foldl_cons]
    exact ih hissues' hscripts' hcounts

theorem foldlM_add?_empty (hlength : ts.length < 2 ^ 64)
    (hcounts : (ofScripts ts).counts.total < 2 ^ 64) :
    ts.foldlM add? empty = some (ofScripts ts) :=
  foldlM_add? ts (Nat.le_refl _) ((Nat.zero_add ts.length).symm ▸ hlength) hcounts

theorem scripts_ofScripts (ts : List Script) : (ofScripts ts).scripts = ts.length := by
  rw [ofScripts, scripts_foldl_add]
  exact Nat.zero_add _

theorem withIssues_ofScripts (ts : List Script) :
    (ofScripts ts).withIssues = ts.countP fun t => !t.analysis.findings.isEmpty := by
  rw [ofScripts, withIssues_foldl_add]
  exact Nat.zero_add _

theorem scores_ofScripts (ts : List Script) :
    (ofScripts ts).scores = ts.map fun t => (t.path, t.analysis.score) :=
  (scores_foldl_add ts empty).trans (List.nil_append _)

theorem withIssues_eq_zero_iff (ts : List Script) :
    (ofScripts ts).withIssues = 0 ↔ ∀ t ∈ ts, t.analysis.findings = [] := by
  rw [withIssues_ofScripts, List.countP_eq_zero]
  simp

theorem full_scores_iff (h : ∀ t ∈ ts, t.Reached) :
    (∀ entry ∈ (ofScripts ts).scores, entry.2 = 100) ↔ ∀ t ∈ ts, t.analysis.findings = [] := by
  rw [scores_ofScripts, List.forall_mem_map]
  refine forall₂_congr fun t ht => ?_
  obtain ⟨kept, hlisted, hanalysis⟩ := (h t ht).exists_listed
  rw [hanalysis]
  exact Analysis.score_ofFindings_eq_iff hlisted

/-- The summary speaks of the scripts as a whole. -/
structure Sums (u : Summary) (ts : List Script) : Prop where
  scripts : u.scripts = ts.length ∧ u.scripts = u.scores.length
  scores : u.scores = ts.map fun t => (t.path, t.analysis.score)
  withIssues : u.withIssues = ts.countP fun t => !t.analysis.findings.isEmpty
  counts : ∀ v, u.counts.get v = (ts.map fun t => t.analysis.counts.get v).sum
  clean : u.withIssues = 0 ↔ u.counts.total = 0
  full : u.counts.total = 0 ↔ ∀ entry ∈ u.scores, entry.2 = 100
  none : ∀ colors, u.Says colors "No scripts analyzed" ↔ ts = []
  perfect : ∀ colors, u.Says colors "Perfect" ↔ ts ≠ [] ∧ ∀ entry ∈ u.scores, entry.2 = 100
  failed : ∀ colors, u.Says colors "FAILED" ↔ 0 < u.exitCode false
  passed : ∀ colors, u.exitCode true = 0 ↔ u.Says colors "No scripts analyzed" ∨
    u.Says colors "Perfect" ∨ u.Says colors "Almost good"
  exitCodes : u.exitCode false ≤ u.exitCode true ∧ u.exitCode true ≤ 255
  /-- What the summary says is said in words, too, and so it is put together. -/
  inWords : u.InWords
  inWords_add : ts.length < 2 ^ 64 → ts.foldlM add? empty = some u

/-- Scripts in any of their states are summed up as a whole, if one word can count the findings. -/
theorem sums_ofScripts (h : ∀ t ∈ ts, t.Reached) (hsize : findingCount ts < 2 ^ 64) :
    (ofScripts ts).Sums ts := by
  have hwords : (ofScripts ts).counts.total < 2 ^ 64 := by rwa [total_counts h]
  have hclean := total_counts_eq_zero_iff h
  have hscripts : (ofScripts ts).scripts = 0 ↔ ts = [] := by
    rw [scripts_ofScripts, List.length_eq_zero_iff]
  have hnone (hzero : (ofScripts ts).scripts = 0) : (ofScripts ts).counts.total = 0 := by
    rw [hclean, hscripts.mp hzero]
    exact fun _ ht => absurd ht List.not_mem_nil
  have hfull := hclean.trans (full_scores_iff h).symm
  exact {
    scripts := by
      rw [scores_ofScripts, List.length_map]
      exact ⟨scripts_ofScripts ts, scripts_ofScripts ts⟩
    scores := scores_ofScripts ts
    withIssues := withIssues_ofScripts ts
    counts := fun v => by rw [get_counts h, sum_counts_eq h]
    clean := (withIssues_eq_zero_iff ts).trans hclean.symm
    full := hfull
    none := fun colors => (says_none_iff _ colors).trans hscripts
    perfect := fun colors => by
      rw [says_perfect_iff, ← hfull, ne_eq, ne_eq, hscripts]
    failed := says_failed_iff_exitCode hnone
    passed := exitCode_true_eq_zero_iff hnone
    exitCodes := exitCode_bounds _
    inWords := Summary.inWords hwords
    inWords_add := fun hlength => foldlM_add?_empty hlength hwords }

/-- A script after a check, as it was before, and after a check for errors alone. -/
theorem sums_ofScripts_checkedIndented :
    let fresh := Script.ofSource Source.indented .standard
    let ts := [Script.checkedIndented .standard, fresh,
      Script.checkedIndented (Options.standard.withLevel .error)]
    (∀ t ∈ ts, t.Reached) ∧ findingCount ts < 2 ^ 64 ∧ (ofScripts ts).Sums ts := by
  intro fresh ts
  have hfresh : fresh.Reached := .opened _ _
  have h : ∀ t ∈ ts, t.Reached := by
    simpa [ts] using ⟨Script.reached_checkedIndented _, hfresh, Script.reached_checkedIndented _⟩
  have hsize : findingCount ts < 2 ^ 64 := by decide
  exact ⟨h, hsize, sums_ofScripts h hsize⟩

end Summary
end ScriptAudit
