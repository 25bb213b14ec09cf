import ScriptAudit.Proofs.Discovery.ResolvedNames
import ScriptAudit.Proofs.Run.Verdict
import ScriptAudit.Proofs.Summary.Capacity
import ScriptAudit.Proofs.Text.Utf8

/-! # The results of a run

A run that is not fatal has checked its scripts and prints what they come to. What is kept of a
script is its result, the path with the analysis, from which the JSON text is written. Main
statements: `fatal_eq_none_iff`, by which a run comes to its end when its scripts can be checked
and, if JSON is printed, their paths are text, and `code_eq` and `stdout_json`, by which it then
answers with the summary and the results of these scripts.
-/
namespace ScriptAudit

/-- What was found in a script, and where the script is. -/
structure Result where
  path : Path
  analysis : Analysis
  deriving DecidableEq, Repr

def Script.result (s : Script) : Result := ⟨s.path, s.analysis⟩

namespace Result

/-- A result whose path is shown as text. -/
def toJson (r : Result) : Json :=
  .record [("path", .text r.path.display), ("findings", .list (r.analysis.findings.map Finding.toJson)),
    ("counts", r.analysis.counts.toJson), ("score", .number r.analysis.score)]

/-- The JSON text of a list of results. -/
def jsonText (results : List Result) : String := (Json.list (results.map toJson)).render 0 ++ "\n"

end Result

namespace Script

theorem toJson?_eq {s : Script} (h : s.hasTextPath = true) : s.toJson? = some s.result.toJson := by
  obtain ⟨text, htext⟩ := Option.isSome_iff_exists.mp h
  have hdisplay : s.result.path.display = text := Utf8.decodeLossy_eq_of_decode? htext
  unfold toJson? Result.toJson
  rw [htext, hdisplay]
  rfl

theorem mapM_toJson?_eq {scripts : List Script} (h : scripts.all hasTextPath = true) :
    scripts.mapM toJson? = some ((scripts.map result).map Result.toJson) := by
  induction scripts with
  | nil => rfl
  | cons s scripts ih =>
    obtain ⟨hs, hscripts⟩ := Bool.and_eq_true_iff.mp h
    rw [List.mapM_cons, toJson?_eq hs, ih hscripts]
    rfl

end Script

/-- A script that is checked where it was found has come to one of its states. -/
theorem Disk.reached_of_check {d : Disk} {o : Options} {p : Path} {s : Script}
    (h : d.check o p = .ok s) : s.Reached := by
  obtain ⟨fresh, hload, hcheck⟩ := bind_eq_ok_iff.mp h
  unfold load at hload
  split at hload
  · obtain rfl := Except.ok.inj hload
    exact .checked (.opened _ _) hcheck
  · cases hload

/-- A script is checked where it was found by what is found on its source. -/
theorem Disk.check_of_read {d : Disk} {o : Options} {p : Path} {place : Place} {bytes : List UInt8}
    {fs : List Finding} (hread : d.read p = .ok (place, bytes))
    (hfs : Source.findings ⟨place.path, Utf8.decodeLossy bytes⟩ = .ok fs) :
    d.check o p = .ok ⟨⟨place.path, Utf8.decodeLossy bytes⟩, o,
      .ofFindings (fs.filter fun f => o.keeps f.rule f.severity)⟩ := by
  unfold check load
  rw [hread]
  exact Script.check_of_findings hfs o

namespace CommandLine

variable {c : CommandLine} {d : Disk} {colorsAvailable : Bool}

/-- The command line with other paths. -/
def on (c : CommandLine) (paths : List Path) : CommandLine := { c with paths := paths }

@[simp] theorem has_on (c : CommandLine) (paths : List Path) (k : Key) :
    (c.on paths).has k = c.has k := rfl

/-- Whether colors are used in a run. -/
def inColor (c : CommandLine) (colorsAvailable : Bool) : Bool :=
  colorsAvailable && !c.has .noColors

/-- The scripts that a run checks; none if it does not get as far as that. -/
def scripts (c : CommandLine) (d : Disk) (colorsAvailable : Bool) : List Script :=
  (c.check d (c.inColor colorsAvailable)).toOption.getD []

def results (c : CommandLine) (d : Disk) (colorsAvailable : Bool) : List Result :=
  (c.scripts d colorsAvailable).map Script.result

def summary (c : CommandLine) (d : Disk) (colorsAvailable : Bool) : Summary :=
  .ofScripts (c.scripts d colorsAvailable)

theorem scripts_eq {scripts : List Script}
    (h : c.check d (c.inColor colorsAvailable) = .ok scripts) :
    c.scripts d colorsAvailable = scripts := by
  unfold CommandLine.scripts
  rw [h]
  rfl

theorem run_eq_print {scripts : List Script}
    (h : c.check d (c.inColor colorsAvailable) = .ok scripts) :
    c.run d colorsAvailable = c.print (c.inColor colorsAvailable) scripts := by
  unfold run inColor at *
  dsimp only
  rw [h]

theorem answer_eq_print {arguments : List Argument} {scripts : List Script}
    (hparse : parse arguments = .ok c) (h : c.check d (c.inColor colorsAvailable) = .ok scripts) :
    answer arguments d colorsAvailable = c.print (c.inColor colorsAvailable) scripts := by
  unfold answer
  rw [hparse]
  exact run_eq_print h

/-- Each of the scripts has been checked where it was found. -/
theorem exists_check_of_mem {colors : Bool} {scripts : List Script}
    (h : c.check d colors = .ok scripts) {s : Script} (hs : s ∈ scripts) :
    ∃ q, d.check (c.analysisOptions colors) q = .ok s := by
  obtain ⟨found, _, hscripts⟩ := bind_eq_ok_iff.mp h
  obtain ⟨q, _, hq⟩ := (mem_of_mapM_eq_ok hscripts).mp hs
  exact ⟨q, hq⟩

theorem reached_of_check {colors : Bool} {scripts : List Script}
    (h : c.check d colors = .ok scripts) : ∀ s ∈ scripts, s.Reached := by
  intro s hs
  obtain ⟨q, hq⟩ := exists_check_of_mem h hs
  exact Disk.reached_of_check hq

theorem reached_of_mem_scripts : ∀ s ∈ c.scripts d colorsAvailable, s.Reached := by
  cases hcheck : c.check d (c.inColor colorsAvailable) with
  | ok scripts =>
    rw [scripts_eq hcheck]
    exact reached_of_check hcheck
  | error fault =>
    unfold CommandLine.scripts
    rw [hcheck]
    exact fun _ hs => absurd hs List.not_mem_nil

theorem fatal_print_eq_none_iff (c : CommandLine) (colors : Bool) (scripts : List Script) :
    (c.print colors scripts).fatal = none ↔
      (c.printsJson = true → scripts.all Script.hasTextPath = true) := by
  have hverdict : (c.print colors scripts).fatal = (c.verdictOn c.printsJson scripts).2 :=
    congrArg Prod.snd (c.verdict_print colors scripts)
  rw [hverdict]
  unfold verdictOn
  cases c.printsJson <;> cases scripts.all Script.hasTextPath <;>
    simp [Answer.failed, Answer.verdict]

/-- A run comes to its end when its scripts can be checked and their paths can be printed. -/
theorem fatal_eq_none_iff : (c.run d colorsAvailable).fatal = none ↔
    ∃ scripts, c.check d (c.inColor colorsAvailable) = .ok scripts ∧
      (c.printsJson = true → scripts.all Script.hasTextPath = true) := by
  constructor
  · intro h
    obtain ⟨scripts, hcheck⟩ := exists_check_of_run h
    rw [run_eq_print hcheck] at h
    exact ⟨scripts, hcheck, (c.fatal_print_eq_none_iff _ _).mp h⟩
  · rintro ⟨scripts, hcheck, hpaths⟩
    rw [run_eq_print hcheck]
    exact (c.fatal_print_eq_none_iff _ _).mpr hpaths

theorem check_eq_ok_scripts (h : (c.run d colorsAvailable).fatal = none) :
    c.check d (c.inColor colorsAvailable) = .ok (c.scripts d colorsAvailable) := by
  obtain ⟨scripts, hcheck⟩ := exists_check_of_run h
  rw [scripts_eq hcheck]
  exact hcheck

theorem code_eq (h : (c.run d colorsAvailable).fatal = none) :
    (c.run d colorsAvailable).code = (c.summary d colorsAvailable).exitCode (c.has .strict) := by
  obtain ⟨scripts, hcheck, hpaths⟩ := fatal_eq_none_iff.mp h
  have hverdict : (c.print (c.inColor colorsAvailable) scripts).code =
      (c.verdictOn c.printsJson scripts).1 := congrArg Prod.fst (c.verdict_print _ _)
  rw [run_eq_print hcheck, summary, scripts_eq hcheck, hverdict]
  unfold verdictOn
  rw [if_neg (by simpa using hpaths)]
  rfl

/-- The exit code is the number of errors, or errors and warnings, on the scripts. -/
theorem code_eq_issueCount (h : (c.run d colorsAvailable).fatal = none) :
    (c.run d colorsAvailable).code =
      min 255 (Summary.issueCount (c.scripts d colorsAvailable) (c.has .strict)) := by
  rw [code_eq h]
  exact Summary.exitCode_ofScripts reached_of_mem_scripts _

/-- For scripts in memory no addition leaves the words. -/
theorem inWords_summary (hmem : Summary.InMemory (c.scripts d colorsAvailable)) :
    (c.summary d colorsAvailable).InWords :=
  Summary.inWords_ofScripts reached_of_mem_scripts hmem

theorem stdout_json (h : (c.run d colorsAvailable).fatal = none) (hjson : c.printsJson = true) :
    (c.run d colorsAvailable).stdout = Result.jsonText (c.results d colorsAvailable) := by
  obtain ⟨scripts, hcheck, hpaths⟩ := fatal_eq_none_iff.mp h
  obtain ⟨hhas, hquiet⟩ : c.has .json = true ∧ c.has .quiet = false := by
    simpa [printsJson] using hjson
  rw [run_eq_print hcheck, results, scripts_eq hcheck]
  unfold print
  simp [hhas, hquiet, Script.mapM_toJson?_eq (hpaths hjson), Result.jsonText]

theorem stdout_text (h : (c.run d colorsAvailable).fatal = none) (hjson : c.has .json = false) :
    (c.run d colorsAvailable).stdout = c.printText (c.inColor colorsAvailable)
      (c.scripts d colorsAvailable) (c.summary d colorsAvailable) (c.run d colorsAvailable).code := by
  have hcheck := check_eq_ok_scripts h
  rw [run_eq_print hcheck]
  unfold print
  simp [hjson, summary, Summary.ofScripts]

/-- A run comes to its end on scripts that have been collected and can be checked, if it prints no
JSON. -/
theorem fatal_eq_none_of_check {scripts : List Script} (hjson : c.printsJson = false)
    (h : c.check d (c.inColor colorsAvailable) = .ok scripts) :
    (c.run d colorsAvailable).fatal = none :=
  fatal_eq_none_iff.mpr ⟨scripts, h, by simp [hjson]⟩

theorem check_eq_ok (found : List Path) {scripts : List Script} {colors : Bool}
    (hcollect : c.collect d = .ok found)
    (hchecks : List.Forall₂ (fun p s => d.check (c.analysisOptions colors) p = .ok s)
      found scripts) : c.check d colors = .ok scripts :=
  bind_eq_ok_iff.mpr ⟨found, hcollect, mapM_eq_ok_iff.mpr hchecks⟩

/-- A script in which several rules find something, and an empty one in a directory. -/
def twoScripts : Disk where
  tree := .ofList [(["a.py"].map Utf8.encode, .file (Utf8.encode Source.indented.text)),
    (["d", "b.py"].map Utf8.encode, .file [])]
  home := []

theorem wellFormed_twoScripts : twoScripts.WellFormed :=
  ⟨FileTree.wellFormed_ofList (by decide +kernel), rfl⟩

def findingsBlank : List Finding := [⟨.error, .emptyFile, 1, "the script is empty", -100⟩]

/-- The empty script after a check. -/
def checkedBlank (o : Options) : Script :=
  ⟨⟨.ofString "/d/b.py", ""⟩, o,
    .ofFindings (findingsBlank.filter fun f => o.keeps f.rule f.severity)⟩

theorem check_blank (o : Options) :
    twoScripts.check o (.ofString "d/b.py") = .ok (checkedBlank o) := by
  have hread : twoScripts.read (.ofString "d/b.py") = .ok (["d", "b.py"].map Utf8.encode, []) := by
    decide +kernel
  exact Disk.check_of_read hread (by decide +kernel)

theorem check_indented {p : Path} (o : Options)
    (h : twoScripts.locate p = .ok (["a.py"].map Utf8.encode)) :
    twoScripts.check o p = .ok (Script.checkedIndented o) := by
  have hread : twoScripts.read p =
      .ok (["a.py"].map Utf8.encode, Utf8.encode Source.indented.text) :=
    Disk.read_eq_ok_iff.mpr ⟨h, by decide +kernel⟩
  have htext : Utf8.decodeLossy (Utf8.encode Source.indented.text) = Source.indented.text := by
    decide +kernel
  exact Disk.check_of_read hread (by rw [htext]; exact Source.findings_indented)

/-- The script beside the directory, given alone. -/
theorem check_indentedAlone (c : CommandLine)
    (hcollect : c.collect twoScripts = .ok [.ofString "a.py"]) (colors : Bool) :
    c.check twoScripts colors = .ok [.checkedIndented (c.analysisOptions colors)] :=
  check_eq_ok _ hcollect (.cons (check_indented _ (by decide +kernel)) .nil)

/-- Both scripts, the directory given first. -/
theorem check_twoScripts (c : CommandLine)
    (hcollect : c.collect twoScripts = .ok (["d/b.py", "a.py"].map .ofString)) (colors : Bool) :
    c.check twoScripts colors =
      .ok [checkedBlank (c.analysisOptions colors), .checkedIndented (c.analysisOptions colors)] :=
  check_eq_ok _ hcollect (.cons (check_blank _) (.cons (check_indented _ (by decide +kernel)) .nil))

/-! The lines that are printed. -/

theorem lines_append (xs ys : List String) : lines (xs ++ ys) = lines xs ++ lines ys := by
  simp [lines]

/-- Texts that are joined with line breaks are the lines of a longer text. -/
theorem intercalate_append_newline {texts : List String} (h : texts ≠ []) :
    "\n".intercalate texts ++ "\n" = lines texts := by
  induction texts with
  | nil => exact absurd rfl h
  | cons text texts ih =>
    cases texts with
    | nil => simp [lines]
    | cons next texts =>
      rw [String.intercalate_cons_cons, String.append_assoc, ih (List.cons_ne_nil _ _)]
      simp [lines]

end CommandLine
end ScriptAudit
