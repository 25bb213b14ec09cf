import ScriptAudit.Proofs.Run.Complaints
import ScriptAudit.Proofs.Run.Results
import ScriptAudit.Proofs.Summary.Narrowing

/-! # Runs with narrower filters

A command line that ignores more rules or shows fewer severities is for the same scripts. A run of
it ends in the same way, with scores that are no lower and an exit code that is no higher; and
the exit code does not depend on the level as long as this shows what the code counts. Main
statements: `alike_check` and `improves_run`.
-/
namespace ScriptAudit

/-- With other options the same is read from a disk, and it is only checked differently. -/
theorem Disk.alike_check (d : Disk) (o o' : Options) (p : Path) :
    Alike (Script.Rechecked o o') (d.check o p) (d.check o' p) := by
  unfold check load
  cases d.read p with
  | error cause => exact .inl ⟨_, rfl, rfl⟩
  | ok found =>
    obtain ⟨fs, _, hcheck⟩ := Script.exists_check ⟨found.1.path, Utf8.decodeLossy found.2⟩
    exact .inr ⟨_, _, hcheck o, hcheck o', _, fs, rfl, rfl⟩

namespace Key

def isFilter : Key → Bool
  | level | ignoreMessages => true
  | _ => false

end Key

namespace CommandLine

variable {c c' : CommandLine} {d : Disk} {colorsAvailable : Bool}

def ignoredRules (c : CommandLine) : List RuleName := RuleName.parseList (c.value .ignoreMessages)

theorem ignored_analysisOptions (c : CommandLine) (colors : Bool) :
    (c.analysisOptions colors).ignored = c.ignoredRules := by
  simp only [CommandLine.analysisOptions, Options.withColors, Options.withLevel,
    Options.withIgnoreList, ignoredRules]

/-- The same command line but for the filters: the second one ignores the rules that the first one
ignores, and shows no other severities. -/
structure Narrows (c c' : CommandLine) : Prop where
  paths : c'.paths = c.paths
  options : ∀ k : Key, k.isFilter = false → c'.options.lookup k = c.options.lookup k
  ignored : c.ignoredRules ⊆ c'.ignoredRules
  level : c'.level ≤ c.level

namespace Narrows

theorem has_eq (h : c.Narrows c') {k : Key} (hk : k.isFilter = false) : c'.has k = c.has k := by
  rw [has_eq_isSome_lookup, has_eq_isSome_lookup, h.options k hk]

theorem inColor_eq (h : c.Narrows c') (colorsAvailable : Bool) :
    c'.inColor colorsAvailable = c.inColor colorsAvailable := by
  rw [inColor, inColor, h.has_eq (k := .noColors) rfl]

theorem printsJson_eq (h : c.Narrows c') : c'.printsJson = c.printsJson := by
  rw [printsJson, printsJson, h.has_eq (k := .json) rfl, h.has_eq (k := .quiet) rfl]

theorem analysisOptions (h : c.Narrows c') (colors : Bool) :
    (c.analysisOptions colors).Narrows (c'.analysisOptions colors) where
  ignored := by
    rw [ignored_analysisOptions, ignored_analysisOptions]
    exact h.ignored
  level := h.level

theorem collect_eq (h : c.Narrows c') (d : Disk) : c'.collect d = c.collect d := by
  unfold collect ignoredFiles value
  rw [h.paths, h.has_eq (k := .recursive) rfl, h.options .ignoreFiles rfl]

theorem alike_check (h : c.Narrows c') (d : Disk) (colors : Bool) :
    Alike (List.Forall₂ (Script.Rechecked (c.analysisOptions colors) (c'.analysisOptions colors)))
      (c.check d colors) (c'.check d colors) := by
  unfold check
  rw [h.collect_eq]
  cases c.collect d with
  | error fault => exact .inl ⟨fault, rfl, rfl⟩
  | ok found => exact alike_mapM (d.alike_check _ _) found

theorem rechecked (h : c.Narrows c') (d : Disk) (colorsAvailable : Bool) :
    List.Forall₂ (Script.Rechecked (c.analysisOptions (c.inColor colorsAvailable))
      (c'.analysisOptions (c.inColor colorsAvailable)))
      (c.scripts d colorsAvailable) (c'.scripts d colorsAvailable) := by
  unfold CommandLine.scripts
  rw [h.inColor_eq]
  obtain ⟨fault, hcheck, hcheck'⟩ | ⟨ts, us, hcheck, hcheck', hscripts⟩ :=
    h.alike_check d (c.inColor colorsAvailable)
  · rw [hcheck, hcheck']
    exact .nil
  · rw [hcheck, hcheck']
    exact hscripts

theorem fatal_eq (h : c.Narrows c') (d : Disk) (colorsAvailable : Bool) :
    (c'.run d colorsAvailable).fatal = (c.run d colorsAvailable).fatal := by
  have hfatal (c : CommandLine) : (c.run d colorsAvailable).fatal = (c.verdict d c.printsJson).2 :=
    congrArg Prod.snd (c.verdict_run d colorsAvailable)
  rw [hfatal, hfatal, h.printsJson_eq]
  unfold verdict
  obtain ⟨fault, hcheck, hcheck'⟩ | ⟨ts, us, hcheck, hcheck', hscripts⟩ := h.alike_check d false
  · rw [hcheck, hcheck']
  · have hall (ws : List Script) : ws.all Script.hasTextPath =
        (ws.map Script.source).all fun source => (Utf8.decode? source.path.bytes).isSome := by
      rw [List.all_map]
      rfl
    rw [hcheck, hcheck']
    unfold verdictOn
    simp only [hall, Summary.map_source_eq hscripts]
    split <;> rfl

end Narrows

/-- A run that is fatal has an exit code of its own. -/
theorem code_eq_ite (c : CommandLine) (d : Disk) (colorsAvailable : Bool) :
    (c.run d colorsAvailable).code = if (c.run d colorsAvailable).fatal.isSome then Answer.fatalCode
      else (c.summary d colorsAvailable).exitCode (c.has .strict) := by
  cases hfatal : (c.run d colorsAvailable).fatal with
  | none => exact code_eq hfatal
  | some message =>
    obtain ⟨complaint, hrun⟩ := run_eq_failed hfatal
    rw [hrun]
    rfl

/-- What a run gains by narrower filters. -/
structure Improves (c c' : CommandLine) (d : Disk) (colorsAvailable : Bool) : Prop where
  fatal : (c'.run d colorsAvailable).fatal = (c.run d colorsAvailable).fatal
  scripts : List.Forall₂
    (fun s s' => s'.source = s.source ∧ s.analysis.score ≤ s'.analysis.score)
    (c.scripts d colorsAvailable) (c'.scripts d colorsAvailable)
  code : (c'.run d colorsAvailable).code ≤ (c.run d colorsAvailable).code
  inWords : Summary.InMemory (c.scripts d colorsAvailable) →
    (c.summary d colorsAvailable).InWords ∧ (c'.summary d colorsAvailable).InWords
  /-- Errors are shown at every level. -/
  errors : c'.ignoredRules ⊆ c.ignoredRules → c.has .strict = false →
    (c'.run d colorsAvailable).code = (c.run d colorsAvailable).code
  warnings : c'.ignoredRules ⊆ c.ignoredRules → .warning ≤ c'.level →
    (c'.run d colorsAvailable).code = (c.run d colorsAvailable).code

namespace Narrows

/-- The findings of a severity that both levels show are counted alike if the same rules are
ignored. -/
theorem counts_get_eq (h : c.Narrows c') (hignored : c'.ignoredRules ⊆ c.ignoredRules)
    {v : Severity} (hv : v ≤ c'.level) (d : Disk) (colorsAvailable : Bool) :
    (c'.summary d colorsAvailable).counts.get v = (c.summary d colorsAvailable).counts.get v := by
  refine Summary.counts_get_eq (h.rechecked d colorsAvailable) fun r => ?_
  refine Options.keeps_congr (fun r => ?_) (Nat.le_trans hv h.level) hv r
  rw [ignored_analysisOptions, ignored_analysisOptions]
  exact ⟨fun hr => h.ignored hr, fun hr => hignored hr⟩

theorem code_eq_of_exitCode_eq (h : c.Narrows c')
    (hcode : (c'.summary d colorsAvailable).exitCode (c.has .strict) =
      (c.summary d colorsAvailable).exitCode (c.has .strict)) :
    (c'.run d colorsAvailable).code = (c.run d colorsAvailable).code := by
  rw [code_eq_ite, code_eq_ite, h.fatal_eq, h.has_eq (k := .strict) rfl, hcode]

end Narrows

/-- With narrower filters a run on the same scripts is fatal in the same cases, no score is lower
and the exit code is no higher. The level alone does not change the exit code, unless warnings
count and are not shown. -/
theorem improves_run (h : c.Narrows c') (d : Disk) (colorsAvailable : Bool) :
    c.Improves c' d colorsAvailable := by
  have hscripts := h.rechecked d colorsAvailable
  have hnarrows := h.analysisOptions (c.inColor colorsAvailable)
  have herror (hignored : c'.ignoredRules ⊆ c.ignoredRules) :
      (c'.summary d colorsAvailable).counts.error = (c.summary d colorsAvailable).counts.error :=
    h.counts_get_eq hignored (v := .error) (Nat.zero_le _) d colorsAvailable
  constructor
  case fatal => exact h.fatal_eq d colorsAvailable
  case scripts => exact hscripts.imp fun s s' hs => ⟨hs.source_eq, hs.score_le hnarrows⟩
  case code =>
    have hle : (c'.summary d colorsAvailable).exitCode (c.has .strict) ≤
        (c.summary d colorsAvailable).exitCode (c.has .strict) := by
      have hissues := Summary.issueCount_le hscripts hnarrows (c.has .strict)
      rw [summary, summary, Summary.exitCode_ofScripts reached_of_mem_scripts,
        Summary.exitCode_ofScripts reached_of_mem_scripts]
      omega
    rw [code_eq_ite, code_eq_ite, h.fatal_eq, h.has_eq (k := .strict) rfl]
    split
    · exact Nat.le_refl _
    · exact hle
  case inWords =>
    intro hmem
    exact ⟨inWords_summary hmem, inWords_summary (hmem.rechecked hscripts)⟩
  case errors =>
    intro hignored hstrict
    refine h.code_eq_of_exitCode_eq ?_
    simp only [Summary.exitCode, hstrict, herror hignored, Bool.false_eq_true, if_false]
  case warnings =>
    intro hignored hlevel
    have hwarning : (c'.summary d colorsAvailable).counts.warning =
        (c.summary d colorsAvailable).counts.warning :=
      h.counts_get_eq hignored (v := .warning) hlevel d colorsAvailable
    refine h.code_eq_of_exitCode_eq ?_
    simp only [Summary.exitCode, Tally.issues, herror hignored, hwarning]

theorem improves_run_twoScripts :
    let c : CommandLine := ⟨[(.strict, "")], ["d", "a.py"].map .ofString⟩
    let c' : CommandLine :=
      ⟨[(.strict, ""), (.level, "warning"), (.ignoreMessages, "sys_exit,empty_file")],
        ["d", "a.py"].map .ofString⟩
    c.Narrows c' ∧ c.Improves c' twoScripts false ∧ (c.run twoScripts false).code = 4 ∧
    (c'.run twoScripts false).code = 2 := by
  intro c c'
  have h : c.Narrows c' := by
    refine ⟨rfl, fun k hk => ?_, by decide, by decide⟩
    have hlevel : (k == .level) = false := beq_eq_false_iff_ne.mpr (by rintro rfl; cases hk)
    have hignored : (k == .ignoreMessages) = false :=
      beq_eq_false_iff_ne.mpr (by rintro rfl; cases hk)
    simp only [c, c', List.lookup_cons, hlevel, hignored]
  have hrun : c.run twoScripts false = c.print false _ :=
    run_eq_print (check_twoScripts c (by decide +kernel) false)
  have hrun' : c'.run twoScripts false = c'.print false _ :=
    run_eq_print (check_twoScripts c' (by decide +kernel) false)
  exact ⟨h, improves_run h twoScripts false, (congrArg Answer.code hrun).trans (by decide +kernel),
    (congrArg Answer.code hrun').trans (by decide +kernel)⟩

end CommandLine
end ScriptAudit
