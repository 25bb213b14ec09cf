import ScriptAudit.Proofs.Analysis.Filter
import ScriptAudit.Proofs.Discovery.ResolvedNames
import ScriptAudit.Proofs.Run.Verdict

/-! # What a run complains about

A run that ends with a complaint prints nothing. It complains about the first path that is neither
a file nor a directory; if there is none, all scripts are found, read and checked, and only the
printing of JSON can still fail. Main statements: `Disk.exists_check_of_isFile`, by which no file
keeps a run from its end, and `endsInOrder`.
-/
namespace ScriptAudit

namespace Disk

/-- Whether a path leads to a directory, links followed. -/
def isDirectory (d : Disk) (p : Path) : Bool :=
  match d.locate p with
  | .ok place => d.tree.get? place == some .directory
  | .error _ => false

/-- Whether there are scripts to be looked for at a path. -/
def offers (d : Disk) (p : Path) : Bool := d.isFile p || d.isDirectory p

variable {d : Disk} {p : Path}

/-- Where no scripts can be looked for, the path is at fault. -/
theorem collect_cases (d : Disk) (recursive : Bool) (ignoredFiles : List String) (p : Path) :
    (d.offers p = true ∧ ∃ found, d.collect recursive ignoredFiles p = .ok found) ∨
      (d.offers p = false ∧ d.collect recursive ignoredFiles p = .error (.invalidPath p)) := by
  unfold offers isFile isDirectory collect
  cases d.locate p with
  | error cause => exact Or.inr ⟨rfl, rfl⟩
  | ok place =>
    dsimp only
    cases d.tree.get? place with
    | none => exact Or.inr ⟨rfl, rfl⟩
    | some e =>
      cases e with
      | file bytes => exact Or.inl ⟨rfl, _, rfl⟩
      | directory => exact Or.inl ⟨rfl, _, rfl⟩
      | link target => exact Or.inr ⟨rfl, rfl⟩

theorem exists_collect_of_offers (h : d.offers p = true) (recursive : Bool)
    (ignoredFiles : List String) : ∃ found, d.collect recursive ignoredFiles p = .ok found := by
  rcases d.collect_cases recursive ignoredFiles p with ⟨_, hfound⟩ | ⟨hnone, _⟩
  · exact hfound
  · exact absurd h (Bool.eq_false_iff.mp hnone)

theorem collect_of_not_offers (h : d.offers p = false) (recursive : Bool)
    (ignoredFiles : List String) :
    d.collect recursive ignoredFiles p = .error (.invalidPath p) := by
  rcases d.collect_cases recursive ignoredFiles p with ⟨hsome, _⟩ | ⟨_, hfault⟩
  · exact absurd hsome (Bool.eq_false_iff.mp h)
  · exact hfault

/-- A file can be read, and what is read can be checked. -/
theorem exists_check_of_isFile (h : d.isFile p = true) (o : Options) :
    ∃ fresh t, d.load o p = .ok fresh ∧ fresh.check = .ok t := by
  obtain ⟨place, bytes, hlocate, hget⟩ := isFile_iff.mp h
  have hread : d.read p = .ok (place, bytes) := read_eq_ok_iff.mpr ⟨hlocate, hget⟩
  obtain ⟨fs, _, hcheck⟩ := Script.exists_check ⟨place.path, Utf8.decodeLossy bytes⟩
  refine ⟨_, _, ?_, hcheck o⟩
  rw [load, hread]

theorem check_eq_ok_iff {o : Options} {t : Script} :
    d.check o p = .ok t ↔ ∃ fresh, d.load o p = .ok fresh ∧ fresh.check = .ok t :=
  bind_eq_ok_iff

end Disk

namespace CommandLine

variable {c : CommandLine} {d : Disk}

theorem exists_collect (h : ∀ p ∈ c.paths, d.offers p = true) :
    ∃ found, c.collect d = .ok found := by
  obtain ⟨parts, hparts⟩ := exists_mapM_eq_ok fun p hp =>
    Disk.exists_collect_of_offers (h p hp) (c.has .recursive) c.ignoredFiles
  exact ⟨parts.flatten, map_eq_ok_iff.mpr ⟨parts, hparts, rfl⟩⟩

theorem collect_eq_error {p : Path} (h : c.paths.find? (!d.offers ·) = some p) :
    c.collect d = .error (.invalidPath p) := by
  obtain ⟨hp, before, behind, hpaths, hbefore⟩ := List.find?_eq_some_iff_append.mp h
  have hoffers : ∀ q ∈ before, d.offers q = true := by simpa using hbefore
  unfold collect
  rw [hpaths, mapM_eq_error_of_append
    (fun q hq => Disk.exists_collect_of_offers (hoffers q hq) _ _)
    (Disk.collect_of_not_offers (by simpa using hp) _ _)]
  rfl

/-- What is found can be checked. -/
theorem exists_check_of_collect (hd : d.WellFormed) {found : List Path}
    (h : c.collect d = .ok found) (colors : Bool) :
    ∃ scripts, found.mapM (d.check (c.analysisOptions colors)) = .ok scripts := by
  refine exists_mapM_eq_ok fun q hq => ?_
  obtain ⟨_, hfile, _⟩ := of_mem_collect hd h hq
  obtain ⟨fresh, t, hload, hcheck⟩ := Disk.exists_check_of_isFile hfile (c.analysisOptions colors)
  exact ⟨t, Disk.check_eq_ok_iff.mpr ⟨fresh, hload, hcheck⟩⟩

theorem print_eq_failed {colors : Bool} {scripts : List Script} {message : String}
    (h : (c.print colors scripts).fatal = some message) :
    c.print colors scripts = .failed "cannot serialize results" := by
  unfold print at h ⊢
  dsimp only at h ⊢
  split at h
  · cases h
  · next hjson =>
    split at h
    · cases h
    · next hquiet =>
      rw [if_neg hjson, if_neg hquiet]
      split at h
      · cases h
      · rfl

/-- There is one way only to end with a complaint. -/
theorem run_eq_failed {colorsAvailable : Bool} {message : String}
    (h : (c.run d colorsAvailable).fatal = some message) :
    ∃ complaint, c.run d colorsAvailable = .failed complaint := by
  unfold run at h ⊢
  dsimp only at h ⊢
  cases hcheck : c.check d (colorsAvailable && !c.has .noColors) with
  | error fault => exact ⟨fault.message, rfl⟩
  | ok scripts =>
    rw [hcheck] at h
    exact ⟨_, print_eq_failed h⟩

/-- A run either comes to its end or leaves nothing behind but one complaint. -/
structure EndsInOrder (c : CommandLine) (d : Disk) (colorsAvailable : Bool) : Prop where
  silent : ∀ message, (c.run d colorsAvailable).fatal = some message →
    (c.run d colorsAvailable).stdout = "" ∧ (c.run d colorsAvailable).code = 1
  named : ∀ p, c.paths.find? (fun p => !d.offers p) = some p →
    (c.run d colorsAvailable).fatal = some ("FATAL: not a directory/file: " ++ p.display)
  done : (∀ p ∈ c.paths, d.offers p = true) → ∃ found scripts, c.collect d = .ok found ∧
    List.Forall₂ (fun q t => ∃ fresh,
      d.load (c.analysisOptions (colorsAvailable && !c.has .noColors)) q = .ok fresh ∧
      fresh.check = .ok t) found scripts ∧
    (c.run d colorsAvailable).fatal = if c.printsJson && !scripts.all Script.hasTextPath then
      some "FATAL: cannot serialize results" else none

theorem endsInOrder (hd : d.WellFormed) (c : CommandLine) (colorsAvailable : Bool) :
    c.EndsInOrder d colorsAvailable where
  silent message h := by
    obtain ⟨complaint, hrun⟩ := run_eq_failed h
    rw [hrun]
    exact ⟨rfl, rfl⟩
  named p h := by
    have hcheck : c.check d (colorsAvailable && !c.has .noColors) = .error (.invalidPath p) := by
      rw [check, collect_eq_error h]
      rfl
    unfold run
    dsimp only
    rw [hcheck]
    rfl
  done h := by
    obtain ⟨found, hcollect⟩ := exists_collect h
    obtain ⟨scripts, hscripts⟩ :=
      exists_check_of_collect hd hcollect (colorsAvailable && !c.has .noColors)
    have hcheck : c.check d (colorsAvailable && !c.has .noColors) = .ok scripts := by
      rw [check, hcollect]
      exact hscripts
    have hverdict :=
      congrArg Prod.snd (c.verdict_print (colorsAvailable && !c.has .noColors) scripts)
    refine ⟨found, scripts, hcollect,
      (mapM_eq_ok_iff.mp hscripts).imp fun _ _ => Disk.check_eq_ok_iff.mp, ?_⟩
    unfold run
    dsimp only
    rw [hcheck]
    refine hverdict.trans ?_
    unfold verdictOn
    split <;> rfl

/-- An empty script beside a link that leads nowhere. -/
def besideBrokenLink : Disk where
  tree := .ofList [(["a.py"].map Utf8.encode, .file []),
    (["gone.py"].map Utf8.encode, .link (.ofString "nowhere"))]
  home := []

theorem endsInOrder_besideBrokenLink :
    let c : CommandLine := ⟨[(.json, "")], ["a.py", "gone.py", "missing"].map .ofString⟩
    besideBrokenLink.WellFormed ∧
    c.paths.find? (fun p => !besideBrokenLink.offers p) = some (.ofString "gone.py") ∧
    c.EndsInOrder besideBrokenLink false := by
  intro c
  have hd : besideBrokenLink.WellFormed := ⟨FileTree.wellFormed_ofList (by decide +kernel), rfl⟩
  have hfirst : c.paths.find? (fun p => !besideBrokenLink.offers p) =
      some (.ofString "gone.py") := by
    decide +kernel
  exact ⟨hd, hfirst, endsInOrder hd c false⟩

end CommandLine
end ScriptAudit
