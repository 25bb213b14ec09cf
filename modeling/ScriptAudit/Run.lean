import ScriptAudit.CommandLine
import ScriptAudit.Discovery
import ScriptAudit.Json
import ScriptAudit.Summary.Basic

/-! # A run of the program

A run first collects the scripts of all paths, so that a wrong path ends it before anything is
printed, then checks them, and at last prints what the command line asks for. Everything that can
go wrong does so before the first character is printed.
-/
namespace ScriptAudit

/-- What a run leaves behind: its exit code, its standard output, and its complaint if it could
not be finished. -/
structure Answer where
  code : Nat
  stdout : String
  fatal : Option String
  deriving DecidableEq, Repr

namespace Answer

def fatalCode : Nat := 1

def misuseCode : Nat := 2

def failed (complaint : String) : Answer := ⟨fatalCode, "", some ("FATAL: " ++ complaint)⟩

end Answer

/-! The results as JSON. -/

def Finding.toJson (f : Finding) : Json :=
  .record [("severity", .text f.severity.name), ("rule", .text f.rule.name), ("line", .number f.line),
    ("text", .text f.text), ("score_delta", .number f.scoreDelta)]

def Tally.toJson (t : Tally) : Json :=
  .record [("error", .number t.error), ("warning", .number t.warning), ("info", .number t.info)]

/-- The result of a script, unless its path is no text. -/
def Script.toJson? (s : Script) : Option Json := do
  let path ← Utf8.decode? s.path.bytes
  return .record [("path", .text path), ("findings", .list (s.analysis.findings.map Finding.toJson)),
    ("counts", s.analysis.counts.toJson), ("score", .number s.analysis.score)]

namespace CommandLine

def ignoredFiles (c : CommandLine) : List String := Text.entries (c.value .ignoreFiles)

def analysisOptions (c : CommandLine) (colors : Bool) : Options :=
  ((Options.standard.withIgnoreList (c.value .ignoreMessages)).withLevel c.level).withColors colors

def collect (c : CommandLine) (d : Disk) : Except Fault (List Path) :=
  List.flatten <$> c.paths.mapM (d.collect (c.has .recursive) c.ignoredFiles)

def check (c : CommandLine) (d : Disk) (colors : Bool) : Except Fault (List Script) := do
  (← c.collect d).mapM (d.check (c.analysisOptions colors))

def lines (texts : List String) : String := String.join (texts.map (· ++ "\n"))

/-- The reports, or the scores, and the totals, as far as they are asked for. -/
def printText (c : CommandLine) (colors : Bool) (scripts : List Script) (t : Summary)
    (code : Nat) : String :=
  let reports := (scripts.map (·.report (c.has .nameOnly))).filter (!·.isEmpty)
  let ifScores (text : String) := if t.scores.isEmpty then [] else [text]
  if c.has .quiet then ""
  else if c.has .score then lines (ifScores (t.scores.grouped colors))
  else if c.has .nameOnly then lines reports
  else lines (reports ++ ifScores (t.scores.listing colors) ++
    [t.statusLine colors, s!"Exiting with code {code}"])

/-- What a run prints on the given scripts, and its exit code. -/
def print (c : CommandLine) (colors : Bool) (scripts : List Script) : Answer :=
  let t := scripts.foldl Summary.add .empty
  let code := t.exitCode (c.has .strict)
  if !c.has .json then ⟨code, c.printText colors scripts t code, none⟩
  else if c.has .quiet then ⟨code, "", none⟩
  else match scripts.mapM Script.toJson? with
    | some results => ⟨code, (Json.list results).render 0 ++ "\n", none⟩
    | none => .failed "cannot serialize results"

/-- Runs on a disk. Colors are used if they are available and not switched off. -/
def run (c : CommandLine) (d : Disk) (colorsAvailable : Bool) : Answer :=
  let colors := colorsAvailable && !c.has .noColors
  match c.check d colors with
  | .ok scripts => c.print colors scripts
  | .error fault => .failed fault.message

end CommandLine

def versionLine : String := "weechat-script-lint 0.1.0"

def answer (arguments : List Argument) (d : Disk) (colorsAvailable : Bool) : Answer :=
  match CommandLine.parse arguments with
  | .ok c => c.run d colorsAvailable
  | .error .version => ⟨0, versionLine ++ "\n", none⟩
  | .error .misuse => ⟨Answer.misuseCode, "", none⟩

end ScriptAudit
