import ScriptAudit.Analysis.Check
import ScriptAudit.Summary.Scores

/-! # The summary of several scripts

Totals over all scripts taken in, and their scores in order. The status line names the worst kind
of finding, and the exit code is the number of errors, or of errors and warnings, up to 255. As for
counts there are forms of all this in 64-bit words, which give the same values as long as the
findings can be counted in a word (`inWords`).
-/
namespace ScriptAudit

structure Summary where
  scripts : Nat
  withIssues : Nat
  counts : Tally
  scores : ScoreList
  deriving DecidableEq, Repr

namespace Summary

def empty : Summary := ⟨0, 0, .zero, []⟩

def add (t : Summary) (s : Script) : Summary where
  scripts := t.scripts + 1
  withIssues := if s.analysis.findings.isEmpty then t.withIssues else t.withIssues + 1
  counts := t.counts.merge s.analysis.counts
  scores := t.scores ++ [(s.path, s.analysis.score)]

/-- The word for a number of findings, of those that are issues, and of those that are errors. -/
def statusOf (total issues errors : Nat) : String × Color :=
  if total = 0 then ("Perfect", .green)
  else if issues = 0 then ("Almost good", .cyan)
  else if errors = 0 then ("Not so good", .yellow)
  else ("FAILED", .red)

def status (counts : Tally) : String × Color := statusOf counts.total counts.issues counts.error

def nothingAnalyzed : String := "No scripts analyzed"

/-- The status line that starts with the given word, for scripts that have been analyzed. -/
def lineOf (t : Summary) (colors : Bool) (status : String × Color) : String :=
  s!"{status.2.boldIf colors status.1}: {t.scripts} scripts analyzed, {t.withIssues} with issues: " ++
    s!"{t.counts.error} errors, {t.counts.warning} warnings, {t.counts.info} info"

def statusLine (t : Summary) (colors : Bool) : String :=
  if t.scripts = 0 then nothingAnalyzed else t.lineOf colors (status t.counts)

def maxExitCode : Nat := 255

def exitCode (t : Summary) (strict : Bool) : Nat :=
  min (if strict then t.counts.issues else t.counts.error) maxExitCode

/-! The same in words. -/

def add? (t : Summary) (s : Script) : Option Summary := do
  return {
    scripts := ← Word.add? t.scripts 1
    withIssues :=
      ← if s.analysis.findings.isEmpty then some t.withIssues else Word.add? t.withIssues 1
    counts := ← t.counts.merge? s.analysis.counts
    scores := t.scores ++ [(s.path, s.analysis.score)] }

def status? (counts : Tally) : Option (String × Color) := do
  return statusOf (← counts.total?) (← counts.issues?) counts.error

def statusLine? (t : Summary) (colors : Bool) : Option String :=
  if t.scripts = 0 then some nothingAnalyzed else (status? t.counts).map (t.lineOf colors)

def exitCode? (t : Summary) (strict : Bool) : Option Nat :=
  (if strict then t.counts.issues? else some t.counts.error).map (min · maxExitCode)

/-- No addition for the totals, the status line and the exit codes leaves the words. -/
structure InWords (t : Summary) : Prop where
  total : t.counts.total? = some t.counts.total
  statusLine : ∀ colors, t.statusLine? colors = some (t.statusLine colors)
  exitCode : ∀ strict, t.exitCode? strict = some (t.exitCode strict)

theorem inWords {t : Summary} (h : t.counts.total < UInt64.size) : t.InWords where
  total := Tally.total?_eq_some h
  statusLine colors := by
    have hstatus : status? t.counts = some (status t.counts) := by
      rw [status?, Tally.total?_eq_some h, Tally.issues?_eq_some h]
      rfl
    rw [statusLine?, statusLine, hstatus]
    split <;> rfl
  exitCode strict := by
    rw [exitCode?, exitCode, Tally.issues?_eq_some h]
    cases strict <;> rfl

theorem add?_eq_some {t : Summary} {s : Script} (hscripts : t.scripts + 1 < UInt64.size)
    (hissues : t.withIssues ≤ t.scripts)
    (hcounts : (t.counts.merge s.analysis.counts).total < UInt64.size) :
    t.add? s = some (t.add s) := by
  unfold add? add
  rw [Word.add?_eq_some hscripts, Tally.merge?_eq_some hcounts,
    Word.add?_eq_some (m := t.withIssues) (by omega)]
  cases s.analysis.findings.isEmpty <;> rfl

end Summary
end ScriptAudit
