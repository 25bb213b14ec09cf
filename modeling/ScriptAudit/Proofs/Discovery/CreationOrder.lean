import ScriptAudit.Proofs.Discovery.Listing

/-! # Trees with the same entries

The order in which the entries of a tree were created is seen nowhere: what lies at a place, where
a path leads and which scripts are listed below it are the same. Main statements: `get?_of_perm`
and `collect_of_perm`.
-/
namespace ScriptAudit

namespace FileTree

variable {t t' : FileTree}

theorem WellFormed.get?_of_perm (ht : t.WellFormed) (h : t'.entries.Perm t.entries) :
    t'.get? = t.get? := by
  funext place
  by_cases hne : place = []
  · rw [hne, get?_nil, get?_nil]
  · cases hget' : t'.get? place with
    | some e => exact (ht.get?_of_mem (h.mem_iff.mp (mem_of_get?_eq_some hne hget'))).symm
    | none =>
      cases hget : t.get? place with
      | none => rfl
      | some e =>
        rw [get?_of_ne_nil hne, List.lookup_eq_none_iff] at hget'
        have hmem := h.mem_iff.mpr (mem_of_get?_eq_some hne hget)
        exact absurd (hget' _ hmem) (by simp)

/-! Links are followed by what lies at the places on the way. -/

theorem descend_congr (h : t'.get? = t.get?) : t'.descend = t.descend := by
  funext next here pieces
  induction pieces generalizing here with
  | nil => rfl
  | cons piece pieces ih =>
    unfold descend
    simp only [h, ih]

theorem follow_congr (h : t'.get? = t.get?) : t'.follow = t.follow := by
  funext links
  induction links with
  | zero => simp only [follow, descend_congr h]
  | succ links ih => simp only [follow, descend_congr h, ih]

theorem filesBelow_of_perm (h : t'.entries.Perm t.entries) (top : Place) :
    t'.filesBelow top = t.filesBelow top := by
  refine Place.eq_of_perm ?_ ?_ ?_
  · exact List.pairwise_mergeSort Place.le_trans Place.le_total _
  · exact List.pairwise_mergeSort Place.le_trans Place.le_total _
  · exact (List.mergeSort_perm _ _).trans ((h.filterMap _).trans (List.mergeSort_perm _ _).symm)

end FileTree

namespace Disk

variable {d d' : Disk}

theorem locate_congr (hget : d'.tree.get? = d.tree.get?) (hhome : d'.home = d.home) :
    d'.locate = d.locate := by
  funext p
  unfold locate
  rw [FileTree.follow_congr hget, hhome]

/-- Disks with the same entries list the same scripts, in the same order. -/
theorem WellFormed.collect_of_perm (hd : d.WellFormed) (hhome : d'.home = d.home)
    (h : d'.tree.entries.Perm d.tree.entries) : d'.collect = d.collect := by
  have hget := hd.tree.get?_of_perm h
  funext recursive ignoredFiles p
  unfold collect
  simp only [locate_congr hget hhome, hget, FileTree.filesBelow_of_perm h]

end Disk
end ScriptAudit
