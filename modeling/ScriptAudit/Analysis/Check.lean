import ScriptAudit.Analysis.Finding
import ScriptAudit.Analysis.Options
import ScriptAudit.Analysis.Tally
import ScriptAudit.Rules.Table
import ScriptAudit.Score

/-! # Checking a script

An analysis holds the findings that have been kept, their numbers by severity and the score, which
starts at its highest value, loses the weight of each kept finding and does not fall below zero. A
script is checked by running the rules that apply to it in their order; each finding is held
against the options before it is taken in. A script without any text has a single finding and no
rule is run on it.
-/
namespace ScriptAudit

structure Analysis where
  findings : List Finding
  counts : Tally
  score : Int
  deriving DecidableEq, Repr

namespace Analysis

def fresh : Analysis := ⟨[], .zero, maxScore⟩

def lower (score : Int) (f : Finding) : Int := max (score - f.scoreDelta.natAbs) 0

/-- Takes a finding in, unless the options leave it out. -/
def add (o : Options) (a : Analysis) (f : Finding) : Analysis :=
  if o.keeps f.rule f.severity then
    ⟨a.findings ++ [f], a.counts.increment f.severity, lower a.score f⟩
  else a

def addHit (o : Options) (rule : RuleName) (a : Analysis) (h : Hit) : Except Fault Analysis :=
  a.add o <$> Finding.ofRule rule h.line h.filling

/-- Runs a rule on a source it applies to. The severity the rule is declared with has to be that
of the catalog. -/
def runRule (o : Options) (s : Source) (a : Analysis) (r : Rule) : Except Fault Analysis :=
  if !r.appliesTo s then .ok a
  else if r.name.entry.severity ≠ r.severity then
    .error (.severityMismatch r.name r.severity r.name.entry.severity)
  else match r.detect s with
    | .error cause => .error (.ruleFailed r.name cause)
    | .ok hits => hits.foldlM (addHit o r.name) a

end Analysis

def Source.analyze (s : Source) (o : Options) : Except Fault Analysis :=
  if s.text.isEmpty then Analysis.addHit o .emptyFile .fresh (.at 1)
  else Rule.table.foldlM (Analysis.runRule o s) .fresh

/-- A script with the options for it and what its last check found. -/
structure Script where
  source : Source
  options : Options
  analysis : Analysis
  deriving DecidableEq, Repr

namespace Script

def ofSource (s : Source) (o : Options) : Script := ⟨s, o, .fresh⟩

/-- Checks the script afresh, whatever was found before. -/
def check (s : Script) : Except Fault Script := do
  let a ← s.source.analyze s.options
  return { s with analysis := a }

def path (s : Script) : Path := s.source.path

/-- The report on a script: nothing if nothing was found, else the findings, each starting on a
line of its own, or only the file's name. -/
def report (s : Script) (nameOnly : Bool) : String :=
  if s.analysis.findings.isEmpty then ""
  else if nameOnly then (s.path.fileName?.map Utf8.decodeLossy).getD ""
  else "\n".intercalate (s.analysis.findings.map fun f => f.render s.path s.options.colors)

end Script
end ScriptAudit
