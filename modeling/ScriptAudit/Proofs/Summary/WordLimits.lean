import ScriptAudit.Proofs.Summary.Totals

/-! # Counts near the limit of a word

The counts of a summary can be any words. The strict exit code needs the sum of errors and warnings,
and the status line needs the sum of all three counts; a sum that is no word ends the program. Main
statement: `exact_iff`, by which codes, status line and sums are those of whole numbers just for the
counts with a sum that is a word, and for all others there is no answer.
-/
namespace ScriptAudit

namespace Tally

variable {t : Tally} {n : Nat}

theorem issues?_eq_some_iff : t.issues? = some n ↔ t.issues < 2 ^ 64 ∧ t.issues = n :=
  Word.add?_eq_some_iff

theorem issues?_eq_none_iff : t.issues? = none ↔ 2 ^ 64 ≤ t.issues := Word.add?_eq_none_iff

theorem issues_le_total (t : Tally) : t.issues ≤ t.total := Nat.le_add_right _ _

theorem total?_eq_none_iff : t.total? = none ↔ 2 ^ 64 ≤ t.total := by
  constructor
  · intro h
    by_contra hlt
    rw [total?_eq_some (Nat.not_le.mp hlt)] at h
    cases h
  · intro h
    cases htotal : t.total? with
    | none => rfl
    | some n => exact absurd (total?_eq_some_iff.mp htotal).1 (Nat.not_lt.mpr h)

end Tally

namespace Summary

variable {u : Summary}

/-! The exit codes. -/

theorem exitCode?_false (u : Summary) : u.exitCode? false = some (min 255 u.counts.error) :=
  congrArg some (Nat.min_comm _ _)

theorem exitCode?_true_eq_some_iff {n : Nat} : u.exitCode? true = some n ↔
    u.counts.issues < 2 ^ 64 ∧ min 255 u.counts.issues = n := by
  simp only [exitCode?, if_true, Option.map_eq_some_iff, Tally.issues?_eq_some_iff, maxExitCode]
  constructor
  · rintro ⟨_, ⟨hlt, rfl⟩, rfl⟩
    exact ⟨hlt, Nat.min_comm _ _⟩
  · rintro ⟨hlt, rfl⟩
    exact ⟨_, ⟨hlt, rfl⟩, Nat.min_comm _ _⟩

theorem exitCode?_true_eq_none_iff : u.exitCode? true = none ↔ 2 ^ 64 ≤ u.counts.issues := by
  simp [exitCode?, Tally.issues?_eq_none_iff]

/-- The exit codes are those of the whole numbers. -/
structure CodesExactly (u : Summary) : Prop where
  plain : u.exitCode? false = some (min 255 u.counts.error)
  strict : u.exitCode? true = some (min 255 (u.counts.error + u.counts.warning))
  ordered : ∃ code strictCode, u.exitCode? false = some code ∧ u.exitCode? true = some strictCode ∧
    code ≤ strictCode

theorem codesExactly_iff : u.CodesExactly ↔ u.counts.issues < 2 ^ 64 := by
  constructor
  · intro h
    exact (exitCode?_true_eq_some_iff.mp h.strict).1
  · intro h
    have hstrict := exitCode?_true_eq_some_iff.mpr ⟨h, rfl⟩
    refine ⟨u.exitCode?_false, hstrict, _, _, u.exitCode?_false, hstrict, ?_⟩
    unfold Tally.issues
    omega

/-! The status line. -/

/-- The words for scripts that have been analyzed, each with its color. -/
def statuses : List (String × Color) :=
  [("Perfect", .green), ("Almost good", .cyan), ("Not so good", .yellow), ("FAILED", .red)]

/-- A line starts with the word, in its color if colors are in use. -/
def Opens (line : String) (colors : Bool) (s : String × Color) : Prop :=
  (s.2.boldIf colors s.1).toList <+: line.toList

theorem status_mem_statuses (counts : Tally) : status counts ∈ statuses := by
  unfold status statusOf
  repeat' split
  all_goals simp [statuses]

theorem mem_verdicts_of_mem_statuses : ∀ s ∈ statuses, s.1 ∈ verdicts := by
  decide

theorem eq_of_fst_eq : ∀ s ∈ statuses, ∀ s' ∈ statuses, s.1 = s'.1 → s = s' := by
  decide

section Status

variable (hscripts : 0 < u.scripts)
include hscripts

theorem statusLine?_eq_none_iff (colors : Bool) :
    u.statusLine? colors = none ↔ 2 ^ 64 ≤ u.counts.total := by
  rw [statusLine?, if_neg (Nat.ne_of_gt hscripts), Option.map_eq_none_iff, status?]
  constructor
  · intro h
    by_contra hlt
    have htotal := Nat.not_le.mp hlt
    rw [Tally.total?_eq_some htotal, Tally.issues?_eq_some htotal] at h
    cases h
  · intro h
    rw [Tally.total?_eq_none_iff.mpr h]
    rfl

/-- Of the words that there are, the status line opens with the right one. -/
theorem opens_iff {s : String × Color} (hs : s ∈ statuses) (colors : Bool) :
    Opens (u.statusLine colors) colors s ↔ status u.counts = s := by
  have hne : u.scripts ≠ 0 := Nat.ne_of_gt hscripts
  constructor
  · intro h
    have hverdict : u.verdict = (status u.counts).1 := if_neg hne
    have hword := (says_iff (mem_verdicts_of_mem_statuses s hs) u colors).mp
      ⟨_, boldIf_mem_faces s.2 colors s.1, h⟩
    exact eq_of_fst_eq _ (status_mem_statuses u.counts) s hs (hverdict.symm.trans hword)
  · rintro rfl
    unfold Opens statusLine
    rw [if_neg hne]
    exact u.isPrefix_lineOf colors _

end Status

/-- There is a status line, and it goes by the whole numbers. -/
structure SaysExactly (u : Summary) (colors : Bool) (line : String) : Prop where
  given : u.statusLine? colors = some line
  perfect : Opens line colors ("Perfect", .green) ↔
    u.counts.error + u.counts.warning + u.counts.info = 0
  almost : Opens line colors ("Almost good", .cyan) ↔
    u.counts.error + u.counts.warning = 0 ∧ 0 < u.counts.info
  notSo : Opens line colors ("Not so good", .yellow) ↔ u.counts.error = 0 ∧ 0 < u.counts.warning
  failed : Opens line colors ("FAILED", .red) ↔ 0 < u.counts.error

theorem status_eq_perfect_iff {counts : Tally} : status counts = ("Perfect", .green) ↔
    counts.error + counts.warning + counts.info = 0 := by
  unfold status statusOf Tally.total Tally.issues
  grind

theorem status_eq_almost_iff {counts : Tally} : status counts = ("Almost good", .cyan) ↔
    counts.error + counts.warning = 0 ∧ 0 < counts.info := by
  unfold status statusOf Tally.total Tally.issues
  grind

theorem status_eq_notSo_iff {counts : Tally} : status counts = ("Not so good", .yellow) ↔
    counts.error = 0 ∧ 0 < counts.warning := by
  unfold status statusOf Tally.total Tally.issues
  grind

theorem status_eq_failed_iff {counts : Tally} : status counts = ("FAILED", .red) ↔
    0 < counts.error := by
  unfold status statusOf Tally.total Tally.issues
  grind

theorem exists_saysExactly_iff (hscripts : 0 < u.scripts) (colors : Bool) :
    (∃ line, u.SaysExactly colors line) ↔ u.counts.total < 2 ^ 64 := by
  constructor
  · rintro ⟨line, h⟩
    by_contra hlt
    have hnone := (statusLine?_eq_none_iff hscripts colors).mpr (Nat.not_lt.mp hlt)
    rw [h.given] at hnone
    cases hnone
  · intro h
    exact ⟨_, {
      given := (inWords h).statusLine colors
      perfect := (opens_iff hscripts (by simp [statuses]) colors).trans status_eq_perfect_iff
      almost := (opens_iff hscripts (by simp [statuses]) colors).trans status_eq_almost_iff
      notSo := (opens_iff hscripts (by simp [statuses]) colors).trans status_eq_notSo_iff
      failed := (opens_iff hscripts (by simp [statuses]) colors).trans status_eq_failed_iff }⟩

/-- Exit codes, status line and sums are all there, and are those of the whole numbers. -/
structure Exact (u : Summary) : Prop where
  codes : u.CodesExactly
  status : ∀ colors, ∃ line, u.SaysExactly colors line
  total : u.counts.total? = some (u.counts.error + u.counts.warning + u.counts.info)

/-- The plain exit code is exact for all counts. The strict one is exact if a word can hold the
number of errors and warnings, and else there is none. The status line is exact if a word can hold
the number of all findings, and else there is none; and so it is for all of them together. -/
theorem exact_iff (hscripts : 0 < u.scripts) :
    u.exitCode? false = some (min 255 u.counts.error) ∧
    (u.CodesExactly ↔ u.counts.error + u.counts.warning < 2 ^ 64) ∧
    (u.exitCode? true = none ↔ 2 ^ 64 ≤ u.counts.error + u.counts.warning) ∧
    (∀ colors, (∃ line, u.SaysExactly colors line) ↔
      u.counts.error + u.counts.warning + u.counts.info < 2 ^ 64) ∧
    (∀ colors, u.statusLine? colors = none ↔
      2 ^ 64 ≤ u.counts.error + u.counts.warning + u.counts.info) ∧
    (u.Exact ↔ u.counts.error + u.counts.warning + u.counts.info < 2 ^ 64) := by
  refine ⟨u.exitCode?_false, codesExactly_iff, exitCode?_true_eq_none_iff,
    exists_saysExactly_iff hscripts, statusLine?_eq_none_iff hscripts, ?_⟩
  constructor
  · intro h
    exact (Tally.total?_eq_some_iff.mp h.total).1
  · intro h
    exact {
      codes := codesExactly_iff.mpr (Nat.lt_of_le_of_lt u.counts.issues_le_total h)
      status := fun colors => (exists_saysExactly_iff hscripts colors).mpr h
      total := Tally.total?_eq_some h }

/-- A script with as many errors as a word can hold, and one warning more. -/
def overfull : Summary := ⟨1, 1, ⟨18446744073709551615, 1, 0⟩, []⟩

/-- One warning less can still be counted. -/
theorem exact_iff_full :
    let full : Summary := { overfull with counts := ⟨18446744073709551615, 0, 0⟩ }
    0 < full.scripts ∧ full.exitCode? false = some 255 ∧ full.exitCode? true = some 255 ∧
    full.Exact := by
  intro full
  have hscripts : 0 < full.scripts := by decide
  obtain ⟨hcode, hcodes, _, _, _, hexact⟩ := exact_iff hscripts
  exact ⟨hscripts, hcode, (hcodes.mpr (by decide)).strict, hexact.mpr (by decide)⟩

/-- With the warning there is neither a strict exit code nor a status line. -/
theorem not_exact_overfull : 0 < overfull.scripts ∧ overfull.exitCode? false = some 255 ∧
    overfull.exitCode? true = none ∧ overfull.statusLine? false = none ∧
    overfull.counts.total? = none ∧ ¬overfull.Exact := by
  refine ⟨by decide, by decide, by decide, by decide, by decide, fun h => ?_⟩
  have hstrict := h.codes.strict
  exact absurd hstrict (by decide)

end Summary
end ScriptAudit
