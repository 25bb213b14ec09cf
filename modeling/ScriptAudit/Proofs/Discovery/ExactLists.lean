import ScriptAudit.Proofs.Discovery.CreationOrder
import ScriptAudit.Proofs.Discovery.Walk
import ScriptAudit.Proofs.File.JoinedPaths

/-! # What the list of a directory holds

The list of a directory holds the wanted files below it, each of them once, in the order of paths.
A walk that takes the names in a directory in their order comes upon them in this order: names are
compared as components, so what lies in `a` comes before `a-b.py`, although a slash comes behind a
hyphen. Main statement: `collect_exact`.
-/
namespace ScriptAudit

/-- Whether a path names something in the directory that the other path names. -/
def Path.isIn (p q : Path) : Bool := q.components.dropLast == p.components

namespace Disk

variable {d : Disk} {p : Path} {top : Place} {names names' : Place} {ignoredFiles : List String}
  {recursive : Bool}

/-- A list of the files below the directory `top`, to which `p` leads: those at any depth or those
in the directory itself. -/
structure Lists (d : Disk) (recursive : Bool) (ignoredFiles : List String) (p : Path) (top : Place)
    (found : List Path) : Prop where
  mem_iff : ∀ q, q ∈ found ↔ q.isWanted ignoredFiles = true ∧
    ∃ names, q = names.foldl Path.join p ∧ (recursive = true ∨ names.length = 1) ∧
      ∃ bytes, d.tree.get? (top ++ names) = some (.file bytes)
  nodup : found.Nodup
  increasing : found.Pairwise fun q r => q.le r = true ∧ r.le q = false
  /-- The files are those that a walk comes upon, in the order in which it does. -/
  walked : ∀ depth, (if recursive then ∀ e ∈ d.tree.entries, e.1.length ≤ depth else depth = 1) →
    found = ((d.tree.walk depth top).map (·.foldl Path.join p)).filter (·.isWanted ignoredFiles)

/-- The places that are looked at below a directory. -/
def reached (d : Disk) (recursive : Bool) (top : Place) : List Place :=
  (d.tree.filesBelow top).filter fun names => recursive || names.length == 1

/-- The list of a directory. -/
def listed (d : Disk) (recursive : Bool) (ignoredFiles : List String) (p : Path) (top : Place) :
    List Path :=
  ((d.reached recursive top).map (·.foldl Path.join p)).filter (·.isWanted ignoredFiles)

theorem collect_eq_listed (h : d.locate p = .ok top) (hdir : d.tree.get? top = some .directory)
    (recursive : Bool) (ignoredFiles : List String) :
    d.collect recursive ignoredFiles p = .ok (d.listed recursive ignoredFiles p top) := by
  unfold collect listed reached
  simp only [h, hdir]

namespace WellFormed

theorem validName_of_mem_filesBelow (hd : d.WellFormed) (h : names ∈ d.tree.filesBelow top) :
    ∀ name ∈ names, Path.ValidName name := by
  obtain ⟨bytes, hget⟩ := (FileTree.mem_filesBelow hd.tree).mp h
  exact fun name hname => hd.tree.validName hget (List.mem_append_right _ hname)

/-- The files that are looked at are those that a walk of the right depth comes upon. -/
theorem reached_eq_walk (hd : d.WellFormed) (hdir : d.tree.get? top = some .directory) {depth : Nat}
    (h : if recursive then ∀ e ∈ d.tree.entries, e.1.length ≤ depth else depth = 1) :
    d.reached recursive top = d.tree.walk depth top := by
  rw [FileTree.walk_eq_filter hd.tree hdir]
  unfold reached
  apply List.filter_congr
  intro names hnames
  cases recursive with
  | true =>
    obtain ⟨bytes, hget⟩ := (FileTree.mem_filesBelow hd.tree).mp hnames
    have hne : top ++ names ≠ [] :=
      List.append_ne_nil_of_right_ne_nil _ (hd.tree.ne_nil_of_mem_filesBelow hdir hnames)
    have hlength := h _ (FileTree.mem_of_get?_eq_some hne hget)
    rw [List.length_append] at hlength
    rw [Bool.true_or, decide_eq_true (Nat.le_of_add_left_le hlength)]
  | false =>
    obtain rfl : depth = 1 := h
    have hpos := List.length_pos_iff.mpr (hd.tree.ne_nil_of_mem_filesBelow hdir hnames)
    rw [Bool.false_or, Bool.eq_iff_iff, beq_iff_eq, decide_eq_true_iff]
    omega

theorem increasing_listed (hd : d.WellFormed) (h : d.locate p = .ok top) (recursive : Bool)
    (ignoredFiles : List String) : (d.listed recursive ignoredFiles p top).Pairwise
      fun q r => q.le r = true ∧ r.le q = false := by
  have hne : p.bytes ≠ [] := (locate_eq_ok_iff.mp h).2.1
  refine List.Pairwise.filter _ (List.pairwise_map.mpr ?_)
  refine ((hd.tree.pairwise_filesBelow top).filter _).imp_of_mem ?_
  intro names names' hnames hnames' hbefore
  have hvalid := hd.validName_of_mem_filesBelow (List.mem_filter.mp hnames).1
  have hvalid' := hd.validName_of_mem_filesBelow (List.mem_filter.mp hnames').1
  rw [Path.le_foldl_join hne hvalid hvalid', Path.le_foldl_join hne hvalid' hvalid]
  exact ⟨hbefore.1, hbefore.le_eq_false⟩

theorem lists_listed (hd : d.WellFormed) (h : d.locate p = .ok top)
    (hdir : d.tree.get? top = some .directory) (recursive : Bool) (ignoredFiles : List String) :
    d.Lists recursive ignoredFiles p top (d.listed recursive ignoredFiles p top) := by
  have hincreasing := hd.increasing_listed h recursive ignoredFiles
  refine ⟨?_, ?_, hincreasing, ?_⟩
  · intro q
    unfold listed reached
    simp only [List.mem_filter, List.mem_map, FileTree.mem_filesBelow hd.tree, Bool.or_eq_true,
      beq_iff_eq]
    constructor
    · rintro ⟨⟨names, ⟨hget, hdepth⟩, rfl⟩, hwanted⟩
      exact ⟨hwanted, names, rfl, hdepth, hget⟩
    · rintro ⟨hwanted, names, rfl, hdepth, hget⟩
      exact ⟨⟨names, ⟨hget, hdepth⟩, rfl⟩, hwanted⟩
  · refine hincreasing.imp ?_
    rintro q _ ⟨hle, hgt⟩ rfl
    rw [hle] at hgt
    cases hgt
  · intro depth hdepth
    unfold listed
    rw [hd.reached_eq_walk hdir hdepth]

/-- What lies in the directory itself is one name away. -/
theorem isIn_foldl_join (hd : d.WellFormed) (h : d.locate p = .ok top)
    (hdir : d.tree.get? top = some .directory) (hnames : names ∈ d.tree.filesBelow top) :
    p.isIn (names.foldl Path.join p) = (names.length == 1) := by
  have hvalid := hd.validName_of_mem_filesBelow hnames
  have hne := hd.tree.ne_nil_of_mem_filesBelow hdir hnames
  obtain ⟨init, last, rfl⟩ : ∃ init last, names = init ++ [last] :=
    ⟨_, _, (List.dropLast_concat_getLast hne).symm⟩
  unfold Path.isIn
  rw [Path.components_foldl_join (locate_eq_ok_iff.mp h).2.1 hvalid, List.map_append,
    ← List.append_assoc, List.map_singleton, List.dropLast_concat, Bool.eq_iff_iff, beq_iff_eq,
    beq_iff_eq]
  simp

theorem listed_false (hd : d.WellFormed) (h : d.locate p = .ok top)
    (hdir : d.tree.get? top = some .directory) (ignoredFiles : List String) :
    d.listed false ignoredFiles p top = (d.listed true ignoredFiles p top).filter p.isIn := by
  have hreached : d.reached false top =
      (d.reached true top).filter (p.isIn ∘ (·.foldl Path.join p)) := by
    unfold reached
    rw [List.filter_filter]
    apply List.filter_congr
    intro names hnames
    rw [Function.comp_apply, hd.isIn_foldl_join h hdir hnames, Bool.false_or, Bool.true_or,
      Bool.and_true]
  unfold listed
  rw [hreached, ← List.filter_map, List.filter_filter, List.filter_filter]
  exact List.filter_congr fun q _ => Bool.and_comm _ _

/-- A directory is listed exactly: its list holds the wanted files at any depth, each once and in
the order of paths. The list without sub-directories is the part of it that lies in the directory
itself. In which order the entries were created makes no difference. -/
theorem collect_exact (hd : d.WellFormed) (h : d.locate p = .ok top)
    (hdir : d.tree.get? top = some .directory) (ignoredFiles : List String) :
    ∃ found, d.collect true ignoredFiles p = .ok found ∧
      d.Lists true ignoredFiles p top found ∧
      d.collect false ignoredFiles p = .ok (found.filter p.isIn) ∧
      d.Lists false ignoredFiles p top (found.filter p.isIn) ∧
      ∀ d' : Disk, d'.home = d.home → d'.tree.entries.Perm d.tree.entries →
        ∀ recursive, d'.collect recursive ignoredFiles p = d.collect recursive ignoredFiles p := by
  refine ⟨d.listed true ignoredFiles p top, collect_eq_listed h hdir _ _,
    hd.lists_listed h hdir _ _, ?_⟩
  rw [← hd.listed_false h hdir]
  refine ⟨collect_eq_listed h hdir _ _, hd.lists_listed h hdir _ _, ?_⟩
  intro d' hhome hperm recursive
  rw [hd.collect_of_perm hhome hperm]

/-- A directory with scripts at several depths, one of them in a directory that is named like a
script and one in a hidden directory, and with links to a script and back to the directory. -/
def workshop : Disk where
  tree := .ofList [(["w", "a-b.py"].map Utf8.encode, .file []),
    (["w", "a", "x.py"].map Utf8.encode, .file []),
    (["w", "a", "back"].map Utf8.encode, .link (.ofString "..")),
    (["w", "a.py", "z.lua"].map Utf8.encode, .file []),
    (["w", ".b", "y.py"].map Utf8.encode, .file []),
    (["w", "l.py"].map Utf8.encode, .link (.ofString "a-b.py")),
    (["w", ".h.py"].map Utf8.encode, .file [])]
  home := []

/-- The same directory, its entries created from the last one to the first one. -/
def reversedWorkshop : Disk where
  tree := ⟨workshop.tree.entries.reverse⟩
  home := []

theorem filesBelow_workshop : workshop.tree.filesBelow [Utf8.encode "w"] =
    [[".b", "y.py"], [".h.py"], ["a", "x.py"], ["a-b.py"], ["a.py", "z.lua"]].map
      (·.map Utf8.encode) :=
  Place.eq_of_perm (List.pairwise_mergeSort Place.le_trans Place.le_total _) (by decide +kernel)
    ((List.mergeSort_perm _ _).trans (by decide +kernel))

theorem collect_exact_workshop : ∃ found,
    workshop.collect true ["z.lua"] (.ofString "w/") = .ok found ∧
      found = ["w/.b/y.py", "w/a/x.py", "w/a-b.py"].map Path.ofString ∧
      found.filter (Path.ofString "w/").isIn = [.ofString "w/a-b.py"] ∧
      workshop.Lists true ["z.lua"] (.ofString "w/") [Utf8.encode "w"] found ∧
      reversedWorkshop.collect true ["z.lua"] (.ofString "w/") = .ok found :=
  have hd : workshop.WellFormed := ⟨FileTree.wellFormed_ofList (by decide +kernel), rfl⟩
  have h : workshop.locate (.ofString "w/") = .ok [Utf8.encode "w"] := by decide +kernel
  have hdir : workshop.tree.get? [Utf8.encode "w"] = some .directory := by decide +kernel
  have hall : workshop.collect true ["z.lua"] (.ofString "w/") =
      .ok (["w/.b/y.py", "w/a/x.py", "w/a-b.py"].map Path.ofString) := by
    rw [collect_eq_listed h hdir, listed, reached, filesBelow_workshop]
    decide +kernel
  have ⟨_, hfound, hlists, _, _, hsame⟩ := hd.collect_exact h hdir ["z.lua"]
  have heq := Except.ok.inj (hall.symm.trans hfound)
  ⟨_, hfound, heq.symm, heq ▸ by decide +kernel, hlists,
    (hsame reversedWorkshop rfl (List.reverse_perm _) true).trans hfound⟩

end WellFormed
end Disk
end ScriptAudit
