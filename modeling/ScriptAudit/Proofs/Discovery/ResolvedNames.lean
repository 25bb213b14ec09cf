import ScriptAudit.Run
import ScriptAudit.Proofs.Discovery.Listing

/-! # Names of scripts that are found and checked

A script is accepted by the name of the path at which it is found and checked under the path to
which all links lead. Main statements: `of_mem_collect`, by which a script is found at a link only
if the link is given itself, and `check_named`, by which all other scripts keep their names.
-/
namespace ScriptAudit

namespace Path

variable {p q : Path}

/-- What is wanted of a path, and what its extension is, is settled by its last name. -/
theorem isWanted_congr (h : p.fileName? = q.fileName?) (ignoredFiles : List String) :
    p.isWanted ignoredFiles = q.isWanted ignoredFiles := by
  simp only [isWanted, isScript, textFileName?, textExtension?, extension?, h]

theorem textExtension?_congr (h : p.fileName? = q.fileName?) :
    p.textExtension? = q.textExtension? := by
  simp only [textExtension?, extension?, h]

end Path

/-- Whether a rule applies is settled by the last name of the path. -/
theorem Rule.appliesTo_congr {r : Rule} {s s' : Source}
    (h : s.path.fileName? = s'.path.fileName?) : r.appliesTo s = r.appliesTo s' := by
  unfold appliesTo
  rw [Path.textExtension?_congr h]

namespace Disk

variable {d : Disk} {p q : Path} {recursive : Bool} {ignoredFiles : List String} {o : Options}
  {s : Script} {found : List Path}

/-- A script that is found has an accepted name and is a file, and it is found at a link only if
the link is given itself. -/
theorem of_mem_collect (hd : d.WellFormed) (h : d.collect recursive ignoredFiles p = .ok found)
    (hq : q ∈ found) :
    q.isWanted ignoredFiles = true ∧ d.isFile q = true ∧ (d.isLink q = true → q = p) := by
  unfold collect at h
  split at h
  · cases h
  · next top hlocate =>
    split at h
    · next hdir =>
      obtain rfl := Except.ok.inj h
      obtain ⟨hpath, hwanted⟩ := List.mem_filter.mp hq
      obtain ⟨names, hnames, rfl⟩ := List.mem_map.mp hpath
      obtain ⟨bytes, hfile⟩ :=
        (FileTree.mem_filesBelow hd.tree).mp (List.mem_filter.mp hnames).1
      have hne : names ≠ [] := by
        rintro rfl
        rw [List.append_nil, hdir] at hfile
        cases hfile
      refine ⟨hwanted, isFile_iff.mpr ⟨_, bytes, hd.locate_foldl_join hlocate hfile, hfile⟩, ?_⟩
      intro hlink
      rw [hd.isLink_foldl_join hlocate hfile hne] at hlink
      cases hlink
    · next bytes hfile =>
      obtain rfl := Except.ok.inj h
      obtain ⟨hpath, hwanted⟩ := List.mem_filter.mp hq
      obtain rfl := List.mem_singleton.mp hpath
      exact ⟨hwanted, isFile_iff.mpr ⟨top, bytes, hlocate, hfile⟩, fun _ => rfl⟩
    · cases h

/-- A script that is checked has the path and the text of the file to which its path leads. -/
theorem source_of_check (h : d.check o q = .ok s) : ∃ place bytes, d.locate q = .ok place ∧
    d.tree.get? place = some (.file bytes) ∧
    s.source = ⟨place.path, Utf8.decodeLossy bytes⟩ := by
  obtain ⟨script, hload, hcheck⟩ := bind_eq_ok_iff.mp h
  obtain ⟨a, _, hscript⟩ := bind_eq_ok_iff.mp hcheck
  obtain rfl := Except.ok.inj hscript
  unfold load at hload
  split at hload
  · next place bytes hread =>
    obtain rfl := Except.ok.inj hload
    obtain ⟨hlocate, hget⟩ := read_eq_ok_iff.mp hread
    exact ⟨place, bytes, hlocate, hget, rfl⟩
  · cases hload

end Disk

namespace CommandLine

/-- How a script that is checked goes back to a path at which it is found: the path has an accepted
name, and the script goes by the place to which the path leads. Only if a link is given itself,
this name may be another one. -/
structure CheckedFrom (c : CommandLine) (d : Disk) (q : Path) (s : Script) : Prop where
  wanted : q.isWanted c.ignoredFiles = true
  given : d.isLink q = true → q ∈ c.paths
  resolved : ∃ place, d.locate q = .ok place ∧ s.path = place.path
  accepted : d.isLink q = false → s.path.isWanted c.ignoredFiles = true
  extension : d.isLink q = false → s.path.textExtension? = q.textExtension?
  rules : d.isLink q = false → ∀ r : Rule,
    r.appliesTo s.source = r.appliesTo { s.source with path := q }

variable {c : CommandLine} {d : Disk} {found : List Path} {scripts : List Script}
  {colorsAvailable : Bool}

theorem of_mem_collect (hd : d.WellFormed) (h : c.collect d = .ok found) {q : Path}
    (hq : q ∈ found) :
    q.isWanted c.ignoredFiles = true ∧ d.isFile q = true ∧ (d.isLink q = true → q ∈ c.paths) := by
  obtain ⟨parts, hparts, rfl⟩ := map_eq_ok_iff.mp h
  obtain ⟨part, hpart, hq⟩ := List.mem_flatten.mp hq
  obtain ⟨p, hp, hcollect⟩ := (mem_of_mapM_eq_ok hparts).mp hpart
  obtain ⟨hwanted, hfile, hlink⟩ := Disk.of_mem_collect hd hcollect hq
  exact ⟨hwanted, hfile, fun h => hlink h ▸ hp⟩

theorem exists_check_of_run (h : (c.run d colorsAvailable).fatal = none) :
    ∃ scripts, c.check d (colorsAvailable && !c.has .noColors) = .ok scripts := by
  cases hcheck : c.check d (colorsAvailable && !c.has .noColors) with
  | ok scripts => exact ⟨scripts, rfl⟩
  | error fault =>
    simp only [run, hcheck] at h
    cases h

/-- In a run that is not fatal each script that is found is checked, and under the name at which it
is found unless this is a link that is given itself. -/
theorem check_named (hd : d.WellFormed) (h : (c.run d colorsAvailable).fatal = none) :
    ∃ found scripts, c.collect d = .ok found ∧
      c.check d (colorsAvailable && !c.has .noColors) = .ok scripts ∧
      List.Forall₂ (c.CheckedFrom d) found scripts := by
  obtain ⟨scripts, hcheck⟩ := exists_check_of_run h
  obtain ⟨found, hcollect, hscripts⟩ := bind_eq_ok_iff.mp hcheck
  refine ⟨found, scripts, hcollect, hcheck, ?_⟩
  have hfound := fun q (hq : q ∈ found) => of_mem_collect hd hcollect hq
  refine ((List.forall₂_and_left _ _).mpr ⟨hfound, mapM_eq_ok_iff.mp hscripts⟩).imp ?_
  rintro q s ⟨⟨hwanted, _, hgiven⟩, hq⟩
  obtain ⟨place, bytes, hlocate, hget, hsource⟩ := Disk.source_of_check hq
  have hpath : s.path = place.path := congrArg Source.path hsource
  have hname (hlink : d.isLink q = false) : s.path.fileName? = q.fileName? :=
    hpath ▸ hd.fileName?_path hlocate hget hlink
  exact {
    wanted := hwanted
    given := hgiven
    resolved := ⟨place, hlocate, hpath⟩
    accepted := fun hlink => Path.isWanted_congr (hname hlink) _ ▸ hwanted
    extension := fun hlink => Path.textExtension?_congr (hname hlink)
    rules := fun hlink r => Rule.appliesTo_congr (hname hlink) }

/-- Notes that go by the name of a script over a link. -/
def linkedNotes : Disk where
  tree := .ofList [(["notes.txt"].map Utf8.encode, .file []),
    (["link.py"].map Utf8.encode, .link (.ofString "notes.txt"))]
  home := []

def namesOfLink : CommandLine := ⟨[(.nameOnly, "")], [.ofString "link.py"]⟩

theorem wellFormed_linkedNotes : linkedNotes.WellFormed :=
  ⟨FileTree.wellFormed_ofList (by decide +kernel), rfl⟩

theorem fatal_namesOfLink : (namesOfLink.run linkedNotes false).fatal = none := by decide +kernel

theorem check_named_linkedNotes : linkedNotes.WellFormed ∧
    (namesOfLink.run linkedNotes false).fatal = none ∧
    ∃ found scripts, namesOfLink.collect linkedNotes = .ok found ∧
      namesOfLink.check linkedNotes false = .ok scripts ∧
      List.Forall₂ (namesOfLink.CheckedFrom linkedNotes) found scripts :=
  ⟨wellFormed_linkedNotes, fatal_namesOfLink,
    check_named wellFormed_linkedNotes fatal_namesOfLink⟩

/-- A link that is given itself brings in a script whose own name may not be accepted. -/
theorem not_check_accepted : ¬ ∀ (c : CommandLine) (d : Disk) (colorsAvailable : Bool)
    (scripts : List Script), d.WellFormed → (c.run d colorsAvailable).fatal = none →
    c.check d (colorsAvailable && !c.has .noColors) = .ok scripts →
    ∀ s ∈ scripts, s.path.isWanted c.ignoredFiles = true := by
  intro hlaw
  have hname : (List.map fun s => s.path.isWanted namesOfLink.ignoredFiles) <$>
      namesOfLink.check linkedNotes false = .ok [false] := by decide +kernel
  obtain ⟨scripts, hcheck, hwanted⟩ := map_eq_ok_iff.mp hname
  obtain ⟨s, rfl, hs⟩ := List.map_eq_singleton_iff.mp hwanted
  rw [hlaw _ _ _ _ wellFormed_linkedNotes fatal_namesOfLink hcheck s List.mem_cons_self] at hs
  cases hs

end CommandLine
end ScriptAudit
