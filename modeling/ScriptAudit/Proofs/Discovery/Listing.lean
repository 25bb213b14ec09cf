import ScriptAudit.Discovery
import ScriptAudit.Proofs.File.Located
import ScriptAudit.Proofs.Traversal

/-! # Listing a directory

A directory is listed as its entries are, one after the other, except that a link is passed over
that would be followed if it were given itself. Main statements: `filter_filesBelow`, by which the
files in a directory are its entries in order, and `collect_directory`.
-/
namespace ScriptAudit

/-- The order of names by their bytes. -/
def nameLe (a b : FileName) : Bool := (compare (a.map UInt8.toNat) (b.map UInt8.toNat)).isLE

namespace Place

theorem le_trans (p q r : Place) (hpq : le p q = true) (hqr : le q r = true) : le p r = true :=
  Std.TransCmp.isLE_trans hpq hqr

theorem le_total (p q : Place) : (le p q || le q p) = true := by
  unfold le
  rw [Std.OrientedOrd.eq_swap (a := q.map (·.map UInt8.toNat))]
  cases compare (p.map (·.map UInt8.toNat)) (q.map (·.map UInt8.toNat)) <;> rfl

theorem le_antisymm {p q : Place} (hpq : le p q = true) (hqp : le q p = true) : p = q := by
  have hkey := Std.LawfulEqCmp.eq_of_compare (Std.OrientedCmp.isLE_antisymm hpq hqp)
  have hbyte : Function.Injective UInt8.toNat := fun _ _ => UInt8.toNat_inj.mp
  exact hbyte.list_map.list_map hkey

/-- Lists in order are equal if they hold the same places. -/
theorem eq_of_perm {ps qs : List Place} (hps : ps.Pairwise fun p q => le p q = true)
    (hqs : qs.Pairwise fun p q => le p q = true) (h : ps.Perm qs) : ps = qs :=
  List.Perm.eq_of_pairwise (fun _ _ _ _ => le_antisymm) hps hqs h

theorem le_singleton (a b : FileName) : le [a] [b] = nameLe a b := by
  unfold le nameLe
  simp only [List.map_cons, List.map_nil, compare, List.compareLex]
  split <;> simp_all

end Place

theorem nameLe_trans (a b c : FileName) (hab : nameLe a b = true) (hbc : nameLe b c = true) :
    nameLe a c = true := by
  rw [← Place.le_singleton] at *
  exact Place.le_trans _ _ _ hab hbc

theorem nameLe_total (a b : FileName) : (nameLe a b || nameLe b a) = true := by
  rw [← Place.le_singleton, ← Place.le_singleton]
  exact Place.le_total _ _

namespace FileTree

/-- The names of the entries of a directory, in order. -/
def names (t : FileTree) (top : Place) : List FileName :=
  (t.entries.filterMap fun (place, _) =>
    if place.dropLast = top then place.getLast? else none).mergeSort nameLe

variable {t : FileTree} {top : Place} {name : FileName}

theorem pairwise_names (t : FileTree) (top : Place) :
    (t.names top).Pairwise fun a b => nameLe a b = true :=
  List.pairwise_mergeSort nameLe_trans nameLe_total _

theorem mem_names (ht : t.WellFormed) :
    name ∈ t.names top ↔ ∃ e, t.get? (top ++ [name]) = some e := by
  have hne : top ++ [name] ≠ [] := by simp
  simp only [names, List.mem_mergeSort, List.mem_filterMap, Option.ite_none_right_eq_some,
    Prod.exists, ht.get?_eq_some_iff hne]
  constructor
  · rintro ⟨place, e, hmem, hdrop, hlast⟩
    obtain ⟨init, rfl⟩ := List.getLast?_eq_some_iff.mp hlast
    rw [List.dropLast_concat] at hdrop
    exact ⟨e, hdrop ▸ hmem⟩
  · rintro ⟨e, hmem⟩
    exact ⟨_, e, hmem, List.dropLast_concat, List.getLast?_concat⟩

theorem mem_filesBelow (ht : t.WellFormed) {names : Place} :
    names ∈ t.filesBelow top ↔ ∃ bytes, t.get? (top ++ names) = some (.file bytes) := by
  unfold filesBelow
  rw [List.mem_mergeSort, List.mem_filterMap]
  constructor
  · rintro ⟨⟨place, e⟩, hmem, h⟩
    cases e with
    | directory | link => cases h
    | file bytes =>
      obtain ⟨hstarts, hdrop⟩ := Option.ite_none_right_eq_some.mp h
      obtain ⟨behind, rfl⟩ := List.isPrefixOf_iff_prefix.mp hstarts
      rw [List.drop_left, Option.some.injEq] at hdrop
      exact ⟨bytes, hdrop ▸ ht.get?_of_mem hmem⟩
  · rintro ⟨bytes, hget⟩
    have hne : top ++ names ≠ [] := by
      intro hnil
      rw [hnil] at hget
      cases hget
    refine ⟨_, mem_of_get?_eq_some hne hget, ?_⟩
    simp only [List.isPrefixOf_iff_prefix, List.prefix_append, if_true, List.drop_left]

/-- The files that lie in a directory itself are those of its entries that are files, in order. -/
theorem filter_filesBelow (ht : t.WellFormed) (top : Place) :
    (t.filesBelow top).filter (·.length == 1) =
      ((t.names top).filter fun name => (t.get? (top ++ [name])).any Entry.isFile).map ([·]) := by
  refine Place.eq_of_perm ?_ ?_ ?_
  · exact (List.pairwise_mergeSort Place.le_trans Place.le_total _).filter _
  · rw [List.pairwise_map]
    simp only [Place.le_singleton]
    exact (t.pairwise_names top).filter _
  · unfold filesBelow names
    refine ((List.mergeSort_perm _ _).filter _).trans ?_
    refine .trans (.of_eq ?_) (((List.mergeSort_perm _ _).symm.filter _).map _)
    rw [List.filter_filterMap, List.filter_filterMap, List.map_filterMap]
    apply List.filterMap_congr
    rintro ⟨place, e⟩ hmem
    obtain ⟨init, name, rfl⟩ : ∃ init name, place = init ++ [name] :=
      ⟨_, _, (List.dropLast_concat_getLast (ht.parent _ hmem).1).symm⟩
    have hget := ht.get?_of_mem hmem
    by_cases hinit : init = top
    · subst hinit
      cases e <;> simp [Option.filter, hget, Entry.isFile]
    · have hnone : (if init = top then some name else none) = none := if_neg hinit
      simp only [List.dropLast_concat, List.getLast?_concat, hnone, Option.filter_none,
        Option.map_none]
      cases e with
      | directory | link => rfl
      | file bytes =>
        rw [Option.filter_eq_none_iff]
        intro behind hbehind
        obtain ⟨hstarts, hdrop⟩ := Option.ite_none_right_eq_some.mp hbehind
        obtain rfl := Option.some.inj hdrop
        obtain ⟨behind, hplace⟩ := List.isPrefixOf_iff_prefix.mp hstarts
        rw [← hplace, List.drop_left, beq_iff_eq]
        intro hone
        obtain ⟨last, rfl⟩ := List.length_eq_one_iff.mp hone
        exact hinit (List.append_inj_left' hplace rfl).symm

end FileTree

namespace Disk

variable {d : Disk} {p : Path} {top : Place} {ignoredFiles : List String}

/-- The entries of a directory are listed one after the other, as if each were given itself. -/
def collectEach (d : Disk) (ignoredFiles : List String) (p : Path) (names : List FileName) :
    Except Fault (List Path) :=
  List.flatten <$> names.mapM fun name => d.collect false ignoredFiles (p.join name)

/-- The names in a directory whose paths lead to files, links followed. -/
def filesIn (d : Disk) (p : Path) (top : Place) : List FileName :=
  (d.tree.names top).filter fun name => d.isFile (p.join name)

theorem collect_of_isFile (recursive : Bool) (h : d.isFile p = true) :
    d.collect recursive ignoredFiles p = .ok ([p].filter (·.isWanted ignoredFiles)) := by
  obtain ⟨place, bytes, hlocate, hget⟩ := isFile_iff.mp h
  unfold collect
  simp only [hlocate, hget]

theorem collectEach_of_isFile {names : List FileName}
    (h : ∀ name ∈ names, d.isFile (p.join name) = true) :
    d.collectEach ignoredFiles p names =
      .ok ((names.map p.join).filter (·.isWanted ignoredFiles)) := by
  unfold collectEach
  rw [mapM_eq_ok_map fun name hname => collect_of_isFile false (h name hname)]
  refine congrArg Except.ok ?_
  rw [← List.flatMap_def, ← List.filter_flatMap, ← List.map_eq_flatMap]

namespace WellFormed

/-- In a directory the entries that are files are those whose paths lead to a file and are no
links. -/
theorem isFile_join_and_not_isLink (hd : d.WellFormed) (h : d.locate p = .ok top) {name : FileName}
    (hname : name ∈ d.tree.names top) : (d.isFile (p.join name) && !d.isLink (p.join name)) =
      (d.tree.get? (top ++ [name])).any Entry.isFile := by
  obtain ⟨e, hget⟩ := (FileTree.mem_names hd.tree).mp hname
  rw [hd.isLink_join h (hd.tree.validName hget (by simp)), hget]
  by_cases hlink : e.isLink = true
  · cases e with
    | link target => simp [Entry.isLink, Entry.isFile]
    | file bytes | directory => cases hlink
  · rw [isFile_of_locate (hd.locate_join h hget (Bool.eq_false_iff.mpr hlink)), hget]
    simp [hlink]

theorem collect_eq_collectEach (hd : d.WellFormed) (h : d.locate p = .ok top)
    (hdir : d.tree.get? top = some .directory) (ignoredFiles : List String) :
    d.collect false ignoredFiles p = d.collectEach ignoredFiles p
        ((d.filesIn p top).filter fun name => !d.isLink (p.join name)) := by
  rw [collectEach_of_isFile (by simp +contextual [filesIn])]
  unfold collect filesIn
  simp only [h, hdir, Bool.false_or]
  rw [FileTree.filter_filesBelow hd.tree, List.map_map, List.filter_filter]
  congr 3
  apply List.filter_congr
  intro name hname
  rw [← hd.isFile_join_and_not_isLink h hname, Bool.and_comm]

/-- Listing a directory is listing its entries that are files and no links, in the order of their
names; the links to files make a difference if one of them has the name of a script. -/
theorem collect_directory (hd : d.WellFormed) (h : d.locate p = .ok top)
    (hdir : d.tree.get? top = some .directory) (ignoredFiles : List String) :
    d.collect false ignoredFiles p = d.collectEach ignoredFiles p
        ((d.filesIn p top).filter fun name => !d.isLink (p.join name)) ∧
      (d.collect false ignoredFiles p = d.collectEach ignoredFiles p (d.filesIn p top) ↔
        ∀ name ∈ d.filesIn p top, d.isLink (p.join name) = true →
          (p.join name).isWanted ignoredFiles = false) := by
  have hlisted := hd.collect_eq_collectEach h hdir ignoredFiles
  have hfile : ∀ name ∈ d.filesIn p top, d.isFile (p.join name) = true := fun name hname =>
    (List.mem_filter.mp hname).2
  refine ⟨hlisted, ?_⟩
  rw [hlisted, collectEach_of_isFile hfile,
    collectEach_of_isFile fun name hname => hfile name (List.mem_filter.mp hname).1, Except.ok.injEq]
  constructor
  · intro hequal name hname hlink
    by_contra hwanted
    have hmem : p.join name ∈ ((d.filesIn p top).map p.join).filter (·.isWanted ignoredFiles) :=
      List.mem_filter.mpr ⟨List.mem_map_of_mem hname, (Bool.not_eq_false _).mp hwanted⟩
    rw [← hequal] at hmem
    obtain ⟨other, hother, hjoin⟩ := List.mem_map.mp (List.mem_filter.mp hmem).1
    have hother := (List.mem_filter.mp hother).2
    rw [hjoin, hlink] at hother
    cases hother
  · intro hunwanted
    simp only [List.filter_map, List.filter_filter]
    congr 1
    apply List.filter_congr
    intro name hname
    cases hlink : d.isLink (p.join name) with
    | false => simp
    | true => simp [hunwanted name hname hlink]

/-- A script, and a directory with a link to it. -/
def besideLink : Disk where
  tree := .ofList [(["a.py"].map Utf8.encode, .file []),
    (["d", "l.py"].map Utf8.encode, .link (.ofString "../a.py"))]
  home := []

theorem collect_besideLink : besideLink.WellFormed ∧ besideLink.locate (.ofString ".") = .ok [] ∧
    besideLink.tree.get? [] = some .directory ∧
    besideLink.collect false [] (.ofString ".") = .ok [.ofString "./a.py"] ∧
    besideLink.collect false [] (.ofString ".") = besideLink.collectEach [] (.ofString ".")
      ((besideLink.filesIn (.ofString ".") []).filter fun name =>
        !besideLink.isLink ((Path.ofString ".").join name)) :=
  have hd : besideLink.WellFormed := ⟨FileTree.wellFormed_ofList (by decide +kernel), rfl⟩
  have h : besideLink.locate (.ofString ".") = .ok [] := by decide +kernel
  have hdir : besideLink.tree.get? [] = some .directory := rfl
  ⟨hd, h, hdir, by decide +kernel, (hd.collect_directory h hdir []).1⟩

/-- If a link among the entries leads to a script, the directory does not list what the entries
do. -/
theorem not_collect_eq_collectEach_filesIn : ¬ ∀ (d : Disk) (p : Path) (top : Place)
    (ignoredFiles : List String), d.WellFormed → d.locate p = .ok top →
    d.tree.get? top = some .directory →
    d.collect false ignoredFiles p = d.collectEach ignoredFiles p (d.filesIn p top) := by
  intro hlaw
  refine absurd (hlaw besideLink (.ofString "d") [Utf8.encode "d"] [] ?_ ?_ ?_) ?_ <;> decide +kernel

end WellFormed
end Disk
end ScriptAudit
