import ScriptAudit.Proofs.File.Resolution

/-! # Where paths lead on a disk

A path to a file ends with a name, and the file has this name too unless the path itself is a
link. Main statements: `locate_foldl_join`, by which names that are joined to the path of a
directory lead to what lies below the directory, and `fileName?_path`.
-/
namespace ScriptAudit

namespace Entry

def isFile : Entry → Bool
  | file _ => true
  | _ => false

def isLink : Entry → Bool
  | link _ => true
  | _ => false

theorem isFile_iff {e : Entry} : e.isFile = true ↔ ∃ bytes, e = .file bytes := by
  cases e <;> simp [isFile]

end Entry

namespace Disk

/-- The directory in which a path starts. -/
def base (d : Disk) (p : Path) : Place := if p.isAbsolute then [] else d.home

/-- Whether a path leads to a file, links followed. -/
def isFile (d : Disk) (p : Path) : Bool :=
  match d.locate p with
  | .ok place => (d.tree.get? place).any Entry.isFile
  | .error _ => false

/-- Whether a path is itself a link: what comes before its last name leads to a directory in which
a link has this name. -/
def isLink (d : Disk) (p : Path) : Bool :=
  match p.pieces.getLast?.bind Path.Component.ofPiece?,
    d.tree.follow FileTree.maxLinks (d.base p) p.pieces.dropLast with
  | some (.name name), .ok here => (d.tree.get? (here ++ [name])).any Entry.isLink
  | _, _ => false

variable {d : Disk} {p : Path} {top place : Place} {name : FileName} {names : List FileName}

theorem locate_eq_ok_iff : d.locate p = .ok place ↔ 0 ∉ p.bytes ∧ p.bytes ≠ [] ∧
    ∃ k ≤ FileTree.maxLinks, d.tree.Leads k (d.base p) p.pieces place := by
  unfold locate
  by_cases hzero : 0 ∈ p.bytes
  · simp [hzero]
  · by_cases hempty : p.bytes = []
    · simp [hempty]
    · rw [← FileTree.follow_eq_ok_iff]
      simp [hzero, hempty, base]

theorem isFile_iff : d.isFile p = true ↔
    ∃ place bytes, d.locate p = .ok place ∧ d.tree.get? place = some (.file bytes) := by
  unfold isFile
  cases d.locate p with
  | error cause => simp
  | ok place => simp [Option.any_eq_true, Entry.isFile_iff]

theorem read_eq_ok_iff {bytes : List UInt8} : d.read p = .ok (place, bytes) ↔
    d.locate p = .ok place ∧ d.tree.get? place = some (.file bytes) := by
  unfold read
  cases d.locate p with
  | error cause => simp
  | ok other =>
    simp only [Except.ok.injEq]
    split <;> grind

theorem isFile_of_locate (h : d.locate p = .ok place) :
    d.isFile p = (d.tree.get? place).any Entry.isFile := by
  unfold isFile
  rw [h]

theorem isLink_of_leads {init : List (List UInt8)} {k : Nat} (hpieces : p.pieces = init ++ [name])
    (hname : Path.Component.ofPiece? name = some (.name name)) (hk : k ≤ FileTree.maxLinks)
    (h : d.tree.Leads k (d.base p) init top) :
    d.isLink p = (d.tree.get? (top ++ [name])).any Entry.isLink := by
  unfold isLink
  rw [hpieces, List.dropLast_concat, FileTree.follow_of_leads h hk]
  simp [hname]

namespace WellFormed

theorem get?_base (hd : d.WellFormed) (p : Path) : d.tree.get? (d.base p) = some .directory := by
  unfold base
  split
  · rfl
  · exact hd.home

/-- A name that is joined to the path of a directory is followed from the directory. -/
theorem exists_leads_join (hd : d.WellFormed) (h : d.locate p = .ok top)
    (hname : Path.ValidName name) : ∃ init, ∃ k ≤ FileTree.maxLinks,
      (p.join name).pieces = init ++ [name] ∧ d.tree.Leads k (d.base (p.join name)) init top := by
  obtain ⟨_, hne, n, hn, hleads⟩ := locate_eq_ok_iff.mp h
  have hbase : d.base (p.join name) = d.base p := by
    simp only [base, Path.isAbsolute_join hne]
  rw [hbase]
  obtain ⟨init, hjoin, hpieces | hpieces⟩ := Path.exists_pieces_join hne hname.slash_not_mem
  · exact ⟨init, n, hn, hjoin, hpieces ▸ hleads⟩
  · rw [hpieces] at hleads
    obtain ⟨j, k, mid, hjk, hinit, _, hrest⟩ :=
      hleads.exists_directory hd.tree (hd.get?_base p) (List.cons_ne_nil _ _)
    -- the empty piece at the end leads nowhere else
    have htop : mid = top := (FileTree.Leads.skip Path.ofPiece?_nil (.done mid)).unique hrest
    exact ⟨init, j, by omega, hjoin, htop ▸ hinit⟩

/-- What lies in a directory and is no link is found by its name. -/
theorem locate_join (hd : d.WellFormed) (h : d.locate p = .ok top) {e : Entry}
    (he : d.tree.get? (top ++ [name]) = some e) (hlink : e.isLink = false) :
    d.locate (p.join name) = .ok (top ++ [name]) := by
  have hname : Path.ValidName name := hd.tree.validName he (by simp)
  have hdir : d.tree.get? top = some .directory := hd.tree.get?_above he
  obtain ⟨hzero, hne, _⟩ := locate_eq_ok_iff.mp h
  obtain ⟨init, k, hk, hpieces, hleads⟩ := hd.exists_leads_join h hname
  have hlast : d.tree.Leads 0 top [name] (top ++ [name]) := by
    apply hd.tree.leads_singleton he
    rintro target rfl
    cases hlink
  refine locate_eq_ok_iff.mpr ⟨Path.zero_not_mem_join hzero hname.zero_not_mem,
    Path.bytes_join_ne_nil hne name, k, hk, ?_⟩
  rw [hpieces]
  exact hleads.append hdir hlast

theorem isLink_join (hd : d.WellFormed) (h : d.locate p = .ok top) (hname : Path.ValidName name) :
    d.isLink (p.join name) = (d.tree.get? (top ++ [name])).any Entry.isLink := by
  obtain ⟨init, k, hk, hpieces, hleads⟩ := hd.exists_leads_join h hname
  exact isLink_of_leads hpieces hname.ofPiece? hk hleads

/-- Below a directory a file is found by the names that lead to it. -/
theorem locate_foldl_join (hd : d.WellFormed) (h : d.locate p = .ok top) {bytes : List UInt8}
    (hfile : d.tree.get? (top ++ names) = some (.file bytes)) :
    d.locate (names.foldl Path.join p) = .ok (top ++ names) := by
  induction names generalizing p top with
  | nil => simpa using h
  | cons name names ih =>
    rw [List.append_cons] at hfile ⊢
    rw [List.foldl_cons]
    cases names with
    | nil =>
      rw [List.append_nil] at hfile ⊢
      exact hd.locate_join h hfile rfl
    | cons next names =>
      have hdir := hd.tree.get?_above hfile
      exact ih (hd.locate_join h hdir rfl) hfile

theorem isLink_foldl_join (hd : d.WellFormed) (h : d.locate p = .ok top) {bytes : List UInt8}
    (hfile : d.tree.get? (top ++ names) = some (.file bytes)) (hne : names ≠ []) :
    d.isLink (names.foldl Path.join p) = false := by
  induction names generalizing p top with
  | nil => exact absurd rfl hne
  | cons name names ih =>
    rw [List.append_cons] at hfile
    have hname : Path.ValidName name := hd.tree.validName hfile (by simp)
    cases names with
    | nil =>
      rw [List.append_nil] at hfile
      rw [List.foldl_cons, List.foldl_nil, hd.isLink_join h hname, hfile]
      rfl
    | cons next names =>
      have hdir := hd.tree.get?_above hfile
      exact ih (hd.locate_join h hdir rfl) hfile (List.cons_ne_nil _ _)

/-- A path that leads to a file and is no link itself ends with the name of the file. -/
theorem fileName?_path (hd : d.WellFormed) (h : d.locate p = .ok place) {bytes : List UInt8}
    (hfile : d.tree.get? place = some (.file bytes)) (hlink : d.isLink p = false) :
    place.path.fileName? = p.fileName? := by
  obtain ⟨_, _, n, hn, hleads⟩ := locate_eq_ok_iff.mp h
  obtain ⟨init, piece, hpieces⟩ : ∃ init piece, p.pieces = init ++ [piece] := by
    have hne : p.pieces ≠ [] := Text.split_ne_nil _ _
    exact ⟨_, _, (List.dropLast_concat_getLast hne).symm⟩
  rw [hpieces] at hleads
  obtain ⟨j, k, mid, hjk, hinit, hmid, hlast⟩ :=
    hleads.exists_directory hd.tree (hd.get?_base p) (List.cons_ne_nil _ _)
  have hdirectory : ∀ {other}, d.tree.get? other = some .directory → other ≠ place := by
    rintro other hother rfl
    rw [hfile] at hother
    cases hother
  rcases Path.Component.ofPiece?_cases piece with hp | hp | hp
  · exact absurd ((FileTree.Leads.skip hp (.done mid)).unique hlast) (hdirectory hmid)
  · exact absurd ((FileTree.Leads.parent hp (.done _)).unique hlast)
      (hdirectory (hd.tree.get?_dropLast hmid))
  · rw [isLink_of_leads hpieces hp (by omega) hinit] at hlink
    obtain ⟨_, rfl⟩ | ⟨target, hget⟩ := hlast.singleton_cases hp
    · have hname : Path.ValidName piece := hd.tree.validName hfile (by simp)
      rw [Place.fileName?_path hname, Path.fileName?_of_pieces hpieces hp]
    · rw [hget] at hlink
      cases hlink

end WellFormed
end Disk
end ScriptAudit
