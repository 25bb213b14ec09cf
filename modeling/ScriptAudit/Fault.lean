import ScriptAudit.File.Tree
import ScriptAudit.Message.Catalog

/-! # Faults

What keeps an analysis from being done. A script full of issues is no fault. A fault is internal
when the rules and the catalog disagree, whatever the input. That a directory cannot be listed is no
fault here, because on a `Disk` every directory can.
-/
namespace ScriptAudit

/-- Why a rule could not finish: a match lacks the group whose text the message needs. -/
inductive RuleFault where
  | missingCapture (group line : Nat)
  deriving DecidableEq, Repr

def RuleFault.message : RuleFault → String
  | missingCapture group line => s!"capture group {group} missing in match at line {line}"

inductive Fault where
  | unreadable (path : Path) (cause : PathError)
  | invalidPath (path : Path)
  | ruleFailed (rule : RuleName) (cause : RuleFault)
  | severityMismatch (rule : RuleName) (declared listed : Severity)
  | missingValue (rule : RuleName) (name : String)
  deriving DecidableEq, Repr

namespace Fault

def message : Fault → String
  | unreadable path cause => s!"cannot read {path.display}: {cause.message}"
  | invalidPath path => s!"not a directory/file: {path.display}"
  | ruleFailed rule cause => s!"internal error in rule {rule.name}: {cause.message}"
  | severityMismatch rule declared listed =>
    s!"internal error: rule {rule.name} is declared as {declared.name} " ++
      s!"but the catalog lists it as {listed.name}"
  | missingValue rule name =>
    s!"internal error: message of rule {rule.name} needs a value for \x7b{name}\x7d"

def isInternal : Fault → Bool
  | unreadable _ _ | invalidPath _ => false
  | ruleFailed _ _ | severityMismatch _ _ _ | missingValue _ _ => true

end Fault

def RuleName.format (rule : RuleName) (filling : Filling) : Except Fault String :=
  match Template.fill rule.entry.template filling with
  | .ok text => .ok text
  | .error name => .error (.missingValue rule name)

end ScriptAudit
