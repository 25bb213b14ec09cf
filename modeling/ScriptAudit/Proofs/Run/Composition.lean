import ScriptAudit.Proofs.Run.Results

/-! # Runs on several paths

The paths of a command line are dealt with one after the other, and no script is looked at for the
sake of another one. So a run on two lists of paths, one behind the other, comes to what the runs
on the lists come to. Main statements: `check_append` and `composes_run`.
-/
namespace ScriptAudit

theorem Summary.counts_ofScripts_append (ts us : List Script) :
    (ofScripts (ts ++ us)).counts = (ofScripts ts).counts.merge (ofScripts us).counts := by
  have hzero (t : Tally) : t.merge .zero = t := by simp [Tally.merge, Tally.zero]
  unfold ofScripts
  rw [List.foldl_append, counts_foldl_add us, counts_foldl_add us empty]
  refine Eq.trans ?_ (Tally.foldl_merge _ _ Tally.zero)
  rw [hzero]

theorem min_min_add_min (n a b : Nat) : min n (min n a + min n b) = min n (a + b) := by
  omega

namespace CommandLine

variable {c : CommandLine} {d : Disk} {ps qs : List Path} {colorsAvailable : Bool}

/-- The names of the scripts with findings are printed, one to a line. -/
def printsNames (c : CommandLine) : Bool := c.has .nameOnly && !c.has .score && !c.has .json

theorem collect_append {fs gs : List Path} (h : (c.on ps).collect d = .ok fs)
    (h' : (c.on qs).collect d = .ok gs) : (c.on (ps ++ qs)).collect d = .ok (fs ++ gs) := by
  obtain ⟨parts, hparts, rfl⟩ := map_eq_ok_iff.mp h
  obtain ⟨parts', hparts', rfl⟩ := map_eq_ok_iff.mp h'
  refine map_eq_ok_iff.mpr ⟨parts ++ parts', ?_, List.flatten_append⟩
  exact mapM_append_eq_ok hparts hparts'

theorem check_append {colors : Bool} {ts us : List Script} (h : (c.on ps).check d colors = .ok ts)
    (h' : (c.on qs).check d colors = .ok us) :
    (c.on (ps ++ qs)).check d colors = .ok (ts ++ us) := by
  obtain ⟨fs, hfs, hts⟩ := bind_eq_ok_iff.mp h
  obtain ⟨gs, hgs, hus⟩ := bind_eq_ok_iff.mp h'
  exact bind_eq_ok_iff.mpr ⟨fs ++ gs, collect_append hfs hgs, mapM_append_eq_ok hts hus⟩

/-- What a run on two lists of paths comes to, given what the runs on each of them come to. -/
structure Composes (c : CommandLine) (d : Disk) (colorsAvailable : Bool) (ps qs : List Path) :
    Prop where
  done : ((c.on (ps ++ qs)).run d colorsAvailable).fatal = none
  results : (c.on (ps ++ qs)).results d colorsAvailable =
    (c.on ps).results d colorsAvailable ++ (c.on qs).results d colorsAvailable
  counts : ((c.on (ps ++ qs)).summary d colorsAvailable).counts =
    ((c.on ps).summary d colorsAvailable).counts.merge ((c.on qs).summary d colorsAvailable).counts
  /-- The exit codes add up to the highest one. -/
  code : ((c.on (ps ++ qs)).run d colorsAvailable).code = min 255
    (((c.on ps).run d colorsAvailable).code + ((c.on qs).run d colorsAvailable).code)
  inWords : Summary.InMemory ((c.on (ps ++ qs)).scripts d colorsAvailable) →
    ((c.on (ps ++ qs)).summary d colorsAvailable).InWords
  names : c.printsNames = true → ((c.on (ps ++ qs)).run d colorsAvailable).stdout =
    ((c.on ps).run d colorsAvailable).stdout ++ ((c.on qs).run d colorsAvailable).stdout
  json : c.printsJson = true →
    ((c.on ps).run d colorsAvailable).stdout =
      Result.jsonText ((c.on ps).results d colorsAvailable) ∧
    ((c.on qs).run d colorsAvailable).stdout =
      Result.jsonText ((c.on qs).results d colorsAvailable) ∧
    ((c.on (ps ++ qs)).run d colorsAvailable).stdout = Result.jsonText
      ((c.on ps).results d colorsAvailable ++ (c.on qs).results d colorsAvailable)

/-- The names of the scripts are printed in the order of the scripts. -/
theorem stdout_of_printsNames (h : (c.run d colorsAvailable).fatal = none)
    (hnames : c.printsNames = true) : (c.run d colorsAvailable).stdout =
      if c.has .quiet then "" else
        lines (((c.scripts d colorsAvailable).map (·.report true)).filter (!·.isEmpty)) := by
  obtain ⟨⟨hname, hscore⟩, hjson⟩ :
      (c.has .nameOnly = true ∧ c.has .score = false) ∧ c.has .json = false := by
    simpa [printsNames] using hnames
  rw [stdout_text h hjson]
  simp only [printText, hname, hscore, Bool.false_eq_true, if_false, if_true]

/-- If the runs on two lists of paths are not fatal, the run on one behind the other is not, and
its exit code, its names and its results are those of the two put together. -/
theorem composes_run (h : ((c.on ps).run d colorsAvailable).fatal = none)
    (h' : ((c.on qs).run d colorsAvailable).fatal = none) :
    c.Composes d colorsAvailable ps qs := by
  obtain ⟨ts, hts, hpaths⟩ := fatal_eq_none_iff.mp h
  obtain ⟨us, hus, hpaths'⟩ := fatal_eq_none_iff.mp h'
  have hcheck : (c.on (ps ++ qs)).check d (c.inColor colorsAvailable) = .ok (ts ++ us) :=
    check_append hts hus
  have hdone : ((c.on (ps ++ qs)).run d colorsAvailable).fatal = none := by
    refine fatal_eq_none_iff.mpr ⟨ts ++ us, hcheck, fun hjson => ?_⟩
    rw [List.all_append, hpaths hjson, hpaths' hjson, Bool.and_true]
  have hscripts : (c.on (ps ++ qs)).scripts d colorsAvailable =
      (c.on ps).scripts d colorsAvailable ++ (c.on qs).scripts d colorsAvailable := by
    rw [scripts_eq hcheck, scripts_eq hts, scripts_eq hus]
  have hresults : (c.on (ps ++ qs)).results d colorsAvailable =
      (c.on ps).results d colorsAvailable ++ (c.on qs).results d colorsAvailable := by
    rw [results, hscripts, List.map_append]
    rfl
  constructor
  case done => exact hdone
  case results => exact hresults
  case counts =>
    rw [summary, hscripts]
    exact Summary.counts_ofScripts_append _ _
  case code =>
    have hcode := code_eq_issueCount hdone
    rw [hscripts] at hcode
    rw [hcode, code_eq_issueCount h, code_eq_issueCount h', Summary.issueCount_append]
    exact (min_min_add_min _ _ _).symm
  case inWords => exact inWords_summary
  case names =>
    intro hnames
    rw [stdout_of_printsNames hdone hnames, stdout_of_printsNames h hnames,
      stdout_of_printsNames h' hnames, hscripts, List.map_append, List.filter_append, lines_append]
    cases hquiet : c.has .quiet <;> simp [hquiet]
  case json =>
    intro hjson
    refine ⟨stdout_json h hjson, stdout_json h' hjson, ?_⟩
    rw [stdout_json hdone hjson, hresults]

theorem composes_run_twoScripts :
    let c : CommandLine := ⟨[(.nameOnly, ""), (.strict, "")], []⟩
    ((c.on [.ofString "d"]).run twoScripts false).fatal = none ∧
    ((c.on [.ofString "a.py"]).run twoScripts false).fatal = none ∧
    c.Composes twoScripts false [.ofString "d"] [.ofString "a.py"] := by
  intro c
  have hcheck : (c.on [.ofString "d"]).check twoScripts false =
      .ok [checkedBlank (c.analysisOptions false)] :=
    check_eq_ok [.ofString "d/b.py"] (by decide +kernel) (.cons (check_blank _) .nil)
  have hcheck' : (c.on [.ofString "a.py"]).check twoScripts false =
      .ok [.checkedIndented (c.analysisOptions false)] :=
    check_indentedAlone _ (by decide +kernel) false
  have h : ((c.on [.ofString "d"]).run twoScripts false).fatal = none :=
    fatal_eq_none_of_check rfl hcheck
  have h' : ((c.on [.ofString "a.py"]).run twoScripts false).fatal = none :=
    fatal_eq_none_of_check rfl hcheck'
  exact ⟨h, h', composes_run h h'⟩

end CommandLine
end ScriptAudit
