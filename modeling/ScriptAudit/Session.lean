import ScriptAudit.Summary.Basic

/-! # Sessions

A session works on several scripts, known by keys, and on one summary. Scripts are opened, checked
any number of times, reported on and taken into the summary, in any order.
-/
namespace ScriptAudit

namespace Session

inductive Step where
  | openScript (key : String) (source : Source) (options : Options)
  | check (key : String)
  | report (key : String) (nameOnly : Bool)
  | result (key : String)
  | add (key : String)
  | status (colors : Bool)
  | exitCode (strict : Bool)
  | listing (colors : Bool)
  | grouped (colors : Bool)

inductive Reply where
  | analysis (a : Analysis)
  | text (value : String)
  | result (s : Script)
  | totals (t : Summary)
  | code (value : Nat)

inductive Error where
  | unknownScript (key : String)
  | fault (f : Fault)

end Session

/-- The scripts by their keys, the last one opened or checked first, and the summary. -/
structure Session where
  scripts : List (String × Script)
  summary : Summary

namespace Session

def empty : Session := ⟨[], .empty⟩

def find (s : Session) (key : String) : Except Error Script :=
  match s.scripts.lookup key with
  | some script => .ok script
  | none => .error (.unknownScript key)

def store (s : Session) (key : String) (script : Script) : Session :=
  { s with scripts := (key, script) :: s.scripts.filter (·.1 != key) }

def step (s : Session) : Step → Except Error (Reply × Session)
  | .openScript key source options =>
    let script := Script.ofSource source options
    .ok (.analysis script.analysis, s.store key script)
  | .check key => do
    match (← s.find key).check with
    | .ok script => return (.analysis script.analysis, s.store key script)
    | .error fault => throw (.fault fault)
  | .report key nameOnly => do return (.text ((← s.find key).report nameOnly), s)
  | .result key => do return (.result (← s.find key), s)
  | .add key => do
    let summary := s.summary.add (← s.find key)
    return (.totals summary, { s with summary := summary })
  | .status colors => .ok (.text (s.summary.statusLine colors), s)
  | .exitCode strict => .ok (.code (s.summary.exitCode strict), s)
  | .listing colors => .ok (.text (s.summary.scores.listing colors), s)
  | .grouped colors => .ok (.text (s.summary.scores.grouped colors), s)

/-- The replies to all steps, and the session after them. -/
def run (s : Session) : List Step → Except Error (List Reply × Session)
  | [] => .ok ([], s)
  | step :: steps => do
    let (reply, s) ← s.step step
    let (replies, s) ← s.run steps
    return (reply :: replies, s)

end Session
end ScriptAudit
