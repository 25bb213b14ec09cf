/-! # Severities

A message is an error, a warning or a piece of information. They are ordered from the most to the
least severe, and a level shows every message that is at least as severe as itself.
-/
namespace ScriptAudit

inductive Severity where
  | error
  | warning
  | info
  deriving DecidableEq, Repr

inductive NameError where
  | unknownLevel (name : String)
  | unknownRule (name : String)
  deriving DecidableEq, Repr

def NameError.message : NameError → String
  | unknownLevel name => s!"unknown level '{name}'"
  | unknownRule name => s!"unknown rule '{name}'"

namespace Severity

def all : List Severity := [error, warning, info]

def name : Severity → String
  | error => "error"
  | warning => "warning"
  | info => "info"

def parse (text : String) : Except NameError Severity :=
  match all.find? (·.name == text) with
  | some s => .ok s
  | none => .error (.unknownLevel text)

def rank : Severity → Nat
  | error => 0
  | warning => 1
  | info => 2

instance : LE Severity := ⟨fun s t => s.rank ≤ t.rank⟩

instance : DecidableLE Severity := fun s t => inferInstanceAs (Decidable (s.rank ≤ t.rank))

def isShownAt (s level : Severity) : Bool := s ≤ level

end Severity
end ScriptAudit
