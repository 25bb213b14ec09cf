import ScriptAudit.Proofs.Run.Results
import ScriptAudit.Proofs.Summary.Order

/-! # The order of the paths

Runs on the same paths in another order check the same scripts in another order. What they print
about single scripts follows that order, and what they print about all of them together does not.
Main statements: `check_perm` and `sameTotals_run`.
-/
namespace ScriptAudit

/-- The path of a script that is checked where it was found has been resolved. -/
theorem Disk.WellFormed.isResolved_path {d : Disk} (hd : d.WellFormed) {o : Options} {p : Path}
    {s : Script} (h : d.check o p = .ok s) : s.path.IsResolved := by
  obtain ⟨place, bytes, _, hget, hsource⟩ := source_of_check h
  exact ⟨place, fun name hname => hd.tree.validName hget hname, congrArg Source.path hsource⟩

namespace CommandLine

variable {c : CommandLine} {d : Disk} {ps qs : List Path} {colorsAvailable : Bool}

theorem check_perm {colors : Bool} (hperm : ps.Perm qs) {ts : List Script}
    (h : (c.on ps).check d colors = .ok ts) :
    ∃ us, (c.on qs).check d colors = .ok us ∧ ts.Perm us := by
  obtain ⟨found, hfound, hts⟩ := bind_eq_ok_iff.mp h
  obtain ⟨parts, hparts, rfl⟩ := map_eq_ok_iff.mp hfound
  obtain ⟨parts', hparts', hpartsPerm⟩ := exists_mapM_of_perm hperm hparts
  obtain ⟨us, hus, hscripts⟩ := exists_mapM_of_perm hpartsPerm.flatten hts
  have hfound' : (c.on qs).collect d = .ok parts'.flatten :=
    map_eq_ok_iff.mpr ⟨parts', hparts', rfl⟩
  exact ⟨us, bind_eq_ok_iff.mpr ⟨_, hfound', hus⟩, hscripts⟩

theorem isResolved_of_check (hd : d.WellFormed) {colors : Bool} {ts : List Script}
    (h : c.check d colors = .ok ts) :
    ∀ entry ∈ (Summary.ofScripts ts).scores, entry.1.IsResolved := by
  rw [Summary.scores_ofScripts, List.forall_mem_map]
  intro t ht
  obtain ⟨q, hq⟩ := exists_check_of_mem h ht
  exact hd.isResolved_path hq

/-- The reports and the scores are printed, and the totals behind them. -/
def printsTotals (c : CommandLine) : Bool :=
  !c.has .json && !c.has .quiet && !c.has .score && !c.has .nameOnly

/-- The scores are printed, grouped by score. -/
def printsScores (c : CommandLine) : Bool := c.has .score && !c.has .json

/-- The last lines of a run that prints totals. -/
def closing (c : CommandLine) (d : Disk) (colorsAvailable : Bool) : String :=
  lines [(c.summary d colorsAvailable).statusLine (c.inColor colorsAvailable),
    s!"Exiting with code {(c.run d colorsAvailable).code}"]

theorem stdout_of_printsTotals (h : (c.run d colorsAvailable).fatal = none)
    (htotals : c.printsTotals = true) : ∃ listed : List String,
      (c.run d colorsAvailable).stdout = lines listed ++ c.closing d colorsAvailable := by
  obtain ⟨⟨⟨hjson, hquiet⟩, hscore⟩, hname⟩ : ((c.has .json = false ∧ c.has .quiet = false) ∧
      c.has .score = false) ∧ c.has .nameOnly = false := by
    simpa [printsTotals] using htotals
  rw [stdout_text h hjson]
  simp only [printText, hquiet, hscore, hname, Bool.false_eq_true, if_false]
  exact ⟨_, lines_append _ _⟩

theorem stdout_of_printsScores (h : (c.run d colorsAvailable).fatal = none)
    (hscores : c.printsScores = true) : (c.run d colorsAvailable).stdout =
      if c.has .quiet || (c.summary d colorsAvailable).scores.isEmpty then ""
      else (c.summary d colorsAvailable).scores.grouped (c.inColor colorsAvailable) ++ "\n" := by
  obtain ⟨hscore, hjson⟩ : c.has .score = true ∧ c.has .json = false := by
    simpa [printsScores] using hscores
  rw [stdout_text h hjson]
  cases hquiet : c.has .quiet with
  | true => simp [printText, hquiet]
  | false =>
    cases hempty : (c.summary d colorsAvailable).scores.isEmpty <;>
      simp [printText, hquiet, hscore, hempty, lines]

/-- What a run on paths and a run on the same paths in another order have in common. -/
structure SameTotals (c : CommandLine) (d : Disk) (colorsAvailable : Bool) (ps qs : List Path) :
    Prop where
  done : ((c.on qs).run d colorsAvailable).fatal = none
  scripts : ((c.on ps).scripts d colorsAvailable).Perm ((c.on qs).scripts d colorsAvailable)
  code : ((c.on qs).run d colorsAvailable).code = ((c.on ps).run d colorsAvailable).code
  statusLine : ∀ colors, ((c.on qs).summary d colorsAvailable).statusLine colors =
    ((c.on ps).summary d colorsAvailable).statusLine colors
  /-- The status line is printed by both, with the same words and the same exit code. -/
  closing : c.printsTotals = true → ∃ listed listed' : List String,
    ((c.on ps).run d colorsAvailable).stdout =
      lines listed ++ (c.on ps).closing d colorsAvailable ∧
    ((c.on qs).run d colorsAvailable).stdout =
      lines listed' ++ (c.on ps).closing d colorsAvailable
  scores : c.printsScores = true →
    ((c.on qs).run d colorsAvailable).stdout = ((c.on ps).run d colorsAvailable).stdout

/-- If a run is not fatal, neither is a run on the same paths in another order, and what they come
to in all is the same: the exit code, the status line and the scores grouped by score. -/
theorem sameTotals_run (hd : d.WellFormed) (hperm : ps.Perm qs)
    (h : ((c.on ps).run d colorsAvailable).fatal = none) :
    c.SameTotals d colorsAvailable ps qs := by
  obtain ⟨ts, hts, hpaths⟩ := fatal_eq_none_iff.mp h
  obtain ⟨us, hus, hscripts⟩ := check_perm hperm hts
  have hdone : ((c.on qs).run d colorsAvailable).fatal = none := by
    refine fatal_eq_none_iff.mpr ⟨us, hus, fun hjson => ?_⟩
    rw [← hscripts.all_eq]
    exact hpaths hjson
  have hsummary : (c.on ps).summary d colorsAvailable = .ofScripts ts := by
    rw [summary, scripts_eq hts]
  have hsummary' : (c.on qs).summary d colorsAvailable = .ofScripts us := by
    rw [summary, scripts_eq hus]
  have hcode : ((c.on qs).run d colorsAvailable).code =
      ((c.on ps).run d colorsAvailable).code := by
    rw [code_eq hdone, code_eq h, hsummary, hsummary']
    exact (Summary.exitCode_ofScripts_perm hscripts _).symm
  have hstatus (colors : Bool) : ((c.on qs).summary d colorsAvailable).statusLine colors =
      ((c.on ps).summary d colorsAvailable).statusLine colors := by
    rw [hsummary, hsummary']
    exact (Summary.statusLine_ofScripts_perm hscripts colors).symm
  constructor
  case done => exact hdone
  case scripts =>
    rw [scripts_eq hts, scripts_eq hus]
    exact hscripts
  case code => exact hcode
  case statusLine => exact hstatus
  case closing =>
    intro htotals
    obtain ⟨listed, hlisted⟩ := stdout_of_printsTotals h htotals
    obtain ⟨listed', hlisted'⟩ := stdout_of_printsTotals hdone htotals
    refine ⟨listed, listed', hlisted, ?_⟩
    rw [hlisted', CommandLine.closing, CommandLine.closing, hstatus, hcode]
    rfl
  case scores =>
    intro hscores
    have hscoresPerm := Summary.scores_ofScripts_perm hscripts
    rw [stdout_of_printsScores h hscores, stdout_of_printsScores hdone hscores, hsummary,
      hsummary', hscoresPerm.isEmpty_eq,
      ScoreList.grouped_perm hscoresPerm (isResolved_of_check hd hts)]
    rfl

theorem sameTotals_run_twoScripts :
    let c : CommandLine := ⟨[(.score, "")], []⟩
    let ps := ["a.py", "d", "d/../a.py"].map Path.ofString
    let qs := ["d/../a.py", "d", "a.py"].map Path.ofString
    twoScripts.WellFormed ∧ ps.Perm qs ∧ ((c.on ps).run twoScripts false).fatal = none ∧
    c.SameTotals twoScripts false ps qs := by
  intro c ps qs
  let indented := Script.checkedIndented (c.analysisOptions false)
  have hcheck : (c.on ps).check twoScripts false =
      .ok [indented, checkedBlank (c.analysisOptions false), indented] :=
    check_eq_ok (["a.py", "d/b.py", "d/../a.py"].map .ofString) (by decide +kernel)
      (.cons (check_indented _ (by decide +kernel)) (.cons (check_blank _)
        (.cons (check_indented _ (by decide +kernel)) .nil)))
  have hperm : ps.Perm qs := List.reverse_perm qs
  have h : ((c.on ps).run twoScripts false).fatal = none := fatal_eq_none_of_check rfl hcheck
  exact ⟨wellFormed_twoScripts, hperm, h, sameTotals_run wellFormed_twoScripts hperm h⟩

end CommandLine
end ScriptAudit
