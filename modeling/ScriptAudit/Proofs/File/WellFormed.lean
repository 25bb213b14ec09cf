import Mathlib.Data.List.Induction
import ScriptAudit.Proofs.File.Names

/-! # Well-formed trees

In a well-formed tree every entry lies in a directory, goes by valid names and is the only one at
its place. Main statements: `get?_eq_some_iff`, by which looking up a place finds exactly the
entries, `get?_above`, by which only directories lie on the way to an entry, and
`wellFormed_ofList`, by which trees that are built entry by entry are well-formed.
-/
namespace ScriptAudit

namespace FileTree

structure WellFormed (t : FileTree) : Prop where
  nodup : (t.entries.map (·.1)).Nodup
  valid : ∀ e ∈ t.entries, ∀ name ∈ e.1, Path.ValidName name
  parent : ∀ e ∈ t.entries, e.1 ≠ [] ∧ t.get? e.1.dropLast = some .directory

instance (t : FileTree) : Decidable t.WellFormed :=
  decidable_of_iff ((t.entries.map (·.1)).Nodup ∧
    (∀ e ∈ t.entries, ∀ name ∈ e.1, Path.ValidName name) ∧
    ∀ e ∈ t.entries, e.1 ≠ [] ∧ t.get? e.1.dropLast = some .directory)
    ⟨fun ⟨h₁, h₂, h₃⟩ => ⟨h₁, h₂, h₃⟩, fun h => ⟨h.1, h.2, h.3⟩⟩

variable {t : FileTree} {place : Place} {e : Entry}

@[simp] theorem get?_nil (t : FileTree) : t.get? [] = some .directory := rfl

theorem get?_of_ne_nil (h : place ≠ []) : t.get? place = t.entries.lookup place := by
  have hempty : place.isEmpty = false := by simpa using h
  simp [get?, hempty]

theorem mem_of_get?_eq_some (hne : place ≠ []) (h : t.get? place = some e) :
    (place, e) ∈ t.entries := by
  rw [get?_of_ne_nil hne] at h
  obtain ⟨before, behind, hentries, _⟩ := List.lookup_eq_some_iff.mp h
  simp [hentries]

namespace WellFormed

theorem get?_of_mem (ht : t.WellFormed) (h : (place, e) ∈ t.entries) : t.get? place = some e := by
  rw [get?_of_ne_nil (ht.parent _ h).1, List.lookup_eq_some_iff]
  obtain ⟨before, behind, hentries⟩ := List.append_of_mem h
  refine ⟨before, behind, hentries, ?_⟩
  intro other hother
  have hnodup := ht.nodup
  rw [hentries, List.map_append, List.map_cons, List.nodup_append] at hnodup
  have hne := hnodup.2.2 other.1 (List.mem_map_of_mem hother) place List.mem_cons_self
  exact bne_iff_ne.mpr hne.symm

theorem get?_eq_some_iff (ht : t.WellFormed) (hne : place ≠ []) :
    t.get? place = some e ↔ (place, e) ∈ t.entries :=
  ⟨mem_of_get?_eq_some hne, ht.get?_of_mem⟩

theorem get?_dropLast (ht : t.WellFormed) (h : t.get? place = some e) :
    t.get? place.dropLast = some .directory := by
  by_cases hne : place = []
  · rw [hne]
    rfl
  · exact (ht.parent _ (mem_of_get?_eq_some hne h)).2

/-- What lies in front of a name on the way to an entry is a directory. -/
theorem get?_above (ht : t.WellFormed) {top : Place} {name : FileName} {names : List FileName}
    (h : t.get? (top ++ name :: names) = some e) : t.get? top = some .directory := by
  induction names using List.reverseRecOn generalizing e with
  | nil =>
    have hdir := ht.get?_dropLast h
    rwa [List.dropLast_concat] at hdir
  | append_singleton names last ih =>
    have hdir := ht.get?_dropLast h
    rw [← List.cons_append, ← List.append_assoc, List.dropLast_concat] at hdir
    exact ih hdir

theorem validName (ht : t.WellFormed) (h : t.get? place = some e) {name : FileName}
    (hname : name ∈ place) : Path.ValidName name :=
  ht.valid _ (mem_of_get?_eq_some (List.ne_nil_of_mem hname) h) name hname

end WellFormed

/-! Trees that are built entry by entry. -/

variable {q : Place}

theorem get?_addNew_of_ne (h : q ≠ place) : (t.addNew place e).get? q = t.get? q := by
  unfold addNew
  split
  · rfl
  · by_cases hq : q = []
    · rw [hq]
      rfl
    · rw [get?_of_ne_nil hq, get?_of_ne_nil hq, List.lookup_append, List.lookup_cons,
        beq_eq_false_iff_ne.mpr h, List.lookup_nil, Option.or_none]

theorem get?_addNew_self (h : t.get? place = none) : (t.addNew place e).get? place = some e := by
  have hne : place ≠ [] := by
    rintro rfl
    cases h
  unfold addNew
  rw [if_neg (by simp [h]), get?_of_ne_nil hne, List.lookup_append, ← get?_of_ne_nil hne, h]
  simp

theorem get?_addNew_of_eq_some {x : Entry} (h : t.get? q = some x) :
    (t.addNew place e).get? q = some x := by
  by_cases hq : q = place
  · subst hq
    unfold addNew
    rwa [if_pos (by simp [h])]
  · rw [get?_addNew_of_ne hq, h]

/-- No file and no link is on the way to a place. -/
def Passable (t : FileTree) (place : Place) : Prop :=
  ∀ i < place.length, t.get? (place.take i) = none ∨ t.get? (place.take i) = some .directory

theorem wellFormed_empty : empty.WellFormed := by decide

namespace WellFormed

theorem addNew (ht : t.WellFormed) (hvalid : ∀ name ∈ place, Path.ValidName name) (hne : place ≠ [])
    (hparent : t.get? place.dropLast = some .directory) (e : Entry) :
    (t.addNew place e).WellFormed := by
  by_cases hsome : (t.get? place).isSome = true
  · unfold FileTree.addNew
    rwa [if_pos hsome]
  · have hnone : t.get? place = none := by simpa using hsome
    have hentries : (t.addNew place e).entries = t.entries ++ [(place, e)] := by
      unfold FileTree.addNew
      rw [if_neg hsome]
    refine ⟨?_, ?_, ?_⟩
    · rw [hentries, List.map_append, List.nodup_append]
      refine ⟨ht.nodup, List.pairwise_singleton _ _, ?_⟩
      intro old hold new hnew
      obtain ⟨entry, hentry, rfl⟩ := List.mem_map.mp hold
      obtain rfl : new = place := List.mem_singleton.mp hnew
      rintro rfl
      rw [ht.get?_of_mem hentry] at hnone
      cases hnone
    · intro entry hentry
      rw [hentries, List.mem_append, List.mem_singleton] at hentry
      rcases hentry with hentry | rfl
      · exact ht.valid _ hentry
      · exact hvalid
    · intro entry hentry
      rw [hentries, List.mem_append, List.mem_singleton] at hentry
      rcases hentry with hentry | rfl
      · exact ⟨(ht.parent _ hentry).1, get?_addNew_of_eq_some (ht.parent _ hentry).2⟩
      · exact ⟨hne, get?_addNew_of_eq_some hparent⟩

/-- The directories on the way to a place are added where they are missing. -/
theorem foldl_addNew (ht : t.WellFormed) (hvalid : ∀ name ∈ place, Path.ValidName name)
    (hway : Passable t place) {n : Nat} (hn : n ≤ place.length) :
    let t' := ((List.range n).map place.take).foldl (·.addNew · .directory) t
    t'.WellFormed ∧ Passable t' place ∧ ∀ i < n, t'.get? (place.take i) = some .directory := by
  induction n with
  | zero => exact ⟨ht, hway, fun _ h => absurd h (Nat.not_lt_zero _)⟩
  | succ n ih =>
    obtain ⟨hwell, hpass, hdone⟩ := ih (Nat.le_of_succ_le hn)
    simp only [List.range_succ, List.map_append, List.foldl_append, List.map_singleton,
      List.foldl_cons, List.foldl_nil]
    generalize ((List.range n).map place.take).foldl (·.addNew · .directory) t = t' at *
    have hnew : (t'.addNew (place.take n) .directory).get? (place.take n) = some .directory := by
      rcases hpass n hn with h | h
      · exact get?_addNew_self h
      · exact get?_addNew_of_eq_some h
    refine ⟨?_, ?_, ?_⟩
    · cases n with
      | zero => exact hwell
      | succ n =>
        refine hwell.addNew (fun name h => hvalid name (List.mem_of_mem_take h)) ?_ ?_ _
        · have hlength : (place.take (n + 1)).length = n + 1 := List.length_take_of_le (by omega)
          exact List.ne_nil_of_length_eq_add_one hlength
        · rw [List.dropLast_take hn]
          exact hdone n (Nat.lt_succ_self n)
    · intro i hi
      by_cases h : place.take i = place.take n
      · exact Or.inr (h ▸ hnew)
      · rw [get?_addNew_of_ne h]
        exact hpass i hi
    · intro i hi
      rcases Nat.lt_succ_iff_lt_or_eq.mp hi with h | rfl
      · exact get?_addNew_of_eq_some (hdone i h)
      · exact hnew

/-- A tree stays well-formed when an entry is added below a directory or where nothing is yet. -/
theorem add (ht : t.WellFormed) (hvalid : ∀ name ∈ place, Path.ValidName name) (hne : place ≠ [])
    (hway : Passable t place) (e : Entry) : (t.add place e).WellFormed := by
  obtain ⟨hwell, _, hdone⟩ := ht.foldl_addNew hvalid hway (Nat.le_refl _)
  have hlength : place.length - 1 < place.length := by
    have := List.length_pos_iff.mpr hne
    omega
  refine hwell.addNew hvalid hne ?_ e
  rw [List.dropLast_eq_take]
  exact hdone _ hlength

end WellFormed

/-- The entries can be added one after the other: each goes by valid names, and no file and no link is
on its way at that time. -/
def Addable : FileTree → List (Place × Entry) → Prop
  | _, [] => True
  | t, item :: items => (item.1 ≠ [] ∧ (∀ name ∈ item.1, Path.ValidName name) ∧ t.Passable item.1) ∧
    (t.add item.1 item.2).Addable items

instance (t : FileTree) (place : Place) : Decidable (t.Passable place) :=
  inferInstanceAs (Decidable (∀ i < place.length, _))

instance decidableAddable : (items : List (Place × Entry)) → (t : FileTree) →
    Decidable (t.Addable items)
  | [], _ => .isTrue trivial
  | item :: items, t => @instDecidableAnd _ _ _ (decidableAddable items (t.add item.1 item.2))

theorem WellFormed.foldl_add (ht : t.WellFormed) {items : List (Place × Entry)}
    (h : t.Addable items) :
    (items.foldl (fun t item => t.add item.1 item.2) t).WellFormed := by
  induction items generalizing t with
  | nil => exact ht
  | cons item items ih =>
    obtain ⟨⟨hne, hvalid, hway⟩, hitems⟩ := h
    exact ih (ht.add hvalid hne hway item.2) hitems

/-- A tree that is built from entries is well-formed if each of them could be added. -/
theorem wellFormed_ofList {items : List (Place × Entry)} (h : empty.Addable items) :
    (ofList items).WellFormed :=
  wellFormed_empty.foldl_add h

end FileTree

/-- A well-formed tree in which the current directory is one. -/
structure Disk.WellFormed (d : Disk) : Prop where
  tree : d.tree.WellFormed
  home : d.tree.get? d.home = some .directory

instance (d : Disk) : Decidable d.WellFormed :=
  decidable_of_iff (d.tree.WellFormed ∧ d.tree.get? d.home = some .directory)
    ⟨fun ⟨h₁, h₂⟩ => ⟨h₁, h₂⟩, fun h => ⟨h.1, h.2⟩⟩

end ScriptAudit
