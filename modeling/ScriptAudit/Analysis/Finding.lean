import ScriptAudit.Color
import ScriptAudit.Fault

/-! # Findings

A finding is a hit of a rule together with what the catalog says about the rule: its severity, its
weight for the score, and its text.
-/
namespace ScriptAudit

structure Finding where
  severity : Severity
  rule : RuleName
  line : Nat
  text : String
  scoreDelta : Int
  deriving DecidableEq, Repr

def Severity.color : Severity → Color
  | error => .red
  | warning => .yellow
  | info => .green

namespace Finding

/-- The finding of a rule on a line, as the catalog has it. -/
def ofRule (rule : RuleName) (line : Nat) (filling : Filling) : Except Fault Finding := do
  let text ← rule.format filling
  return ⟨rule.entry.severity, rule, line, text, rule.entry.scoreDelta⟩

/-- The line of a report on a finding in the script at `path`. -/
def render (f : Finding) (path : Path) (colors : Bool) : String :=
  let level := f.severity.color.boldIf colors f.severity.name
  s!"{path.display}:{f.line}: {level} [{f.rule.name}]: {f.text}"

end Finding
end ScriptAudit
