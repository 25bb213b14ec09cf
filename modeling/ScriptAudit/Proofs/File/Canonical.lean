import Mathlib.Data.List.Basic
import ScriptAudit.Proofs.File.Names

/-! # The order of paths

Paths with the same components are equal in the order of paths. Where all links are resolved a path
is made of the names that lead to its place, so that equal paths are the same. Main statements:
`components_path` and `IsResolved.le_antisymm`.
-/
namespace ScriptAudit

/-- The pieces of the path of a place are its names, behind an empty one. -/
theorem Place.split_flatMap {name : FileName} {names : List FileName}
    (h : ∀ n ∈ name :: names, Path.slash ∉ n) :
    Text.split Path.slash ((name :: names).flatMap (Path.slash :: ·)) = [] :: name :: names := by
  induction names generalizing name with
  | nil =>
    rw [List.flatMap_singleton, Text.split_cons_self,
      Text.split_of_not_mem (h name List.mem_cons_self)]
  | cons next names ih =>
    obtain ⟨hname, hnames⟩ := List.forall_mem_cons.mp h
    rw [List.flatMap_cons, List.cons_append, Text.split_cons_self]
    have hrest := ih hnames
    rw [List.flatMap_cons, List.cons_append, Text.split_cons_self] at hrest
    rw [List.flatMap_cons, List.cons_append, Text.split_append_separator,
      Text.split_of_not_mem hname, (List.cons.inj hrest).2]
    rfl

theorem Place.components_path {place : Place} (h : ∀ name ∈ place, Path.ValidName name) :
    place.path.components = .root :: place.map .name := by
  cases place with
  | nil => decide
  | cons name names =>
    have hpieces : (path (name :: names)).pieces = [] :: name :: names :=
      split_flatMap fun n hn => (h n hn).slash_not_mem
    have hnames : (name :: names).filterMap Path.Component.ofPiece? =
        (name :: names).map .name := by
      rw [← List.filterMap_eq_map]
      exact List.filterMap_congr fun n hn => (h n hn).ofPiece?
    unfold Path.components
    rw [hpieces, List.filterMap_cons, Path.ofPiece?_nil, hnames]
    rfl

namespace Path

theorem Component.key_injective : Function.Injective key := by
  have hbyte : Function.Injective UInt8.toNat := fun _ _ => UInt8.toNat_inj.mp
  intro a b h
  cases a <;> cases b <;> simp [key] at h ⊢
  exact hbyte.list_map h

/-- The order of paths, as an order of what they are made of. -/
def componentsLe (cs ds : List Component) : Bool :=
  (compare (cs.map Component.key) (ds.map Component.key)).isLE

theorem componentsLe_trans (cs ds es : List Component) (h : componentsLe cs ds = true)
    (h' : componentsLe ds es = true) : componentsLe cs es = true :=
  Std.TransCmp.isLE_trans h h'

theorem componentsLe_total (cs ds : List Component) :
    (componentsLe cs ds || componentsLe ds cs) = true := by
  unfold componentsLe
  rw [Std.OrientedOrd.eq_swap (a := ds.map Component.key)]
  cases compare (cs.map Component.key) (ds.map Component.key) <;> rfl

theorem componentsLe_antisymm {cs ds : List Component} (h : componentsLe cs ds = true)
    (h' : componentsLe ds cs = true) : cs = ds :=
  Component.key_injective.list_map
    (Std.LawfulEqCmp.eq_of_compare (Std.OrientedCmp.isLE_antisymm h h'))

theorem le_eq (p q : Path) : p.le q = componentsLe p.components q.components := rfl

theorem le_trans (p q r : Path) (hpq : p.le q = true) (hqr : q.le r = true) : p.le r = true :=
  componentsLe_trans _ _ _ hpq hqr

theorem le_total (p q : Path) : (p.le q || q.le p) = true :=
  componentsLe_total _ _

/-- Paths come both before and after each other if they have the same components, and only then. -/
theorem le_and_le_iff {p q : Path} :
    p.le q = true ∧ q.le p = true ↔ p.components = q.components := by
  constructor
  · rintro ⟨hpq, hqp⟩
    exact componentsLe_antisymm hpq hqp
  · intro h
    have htotal := componentsLe_total p.components q.components
    rw [h, Bool.or_self] at htotal
    rw [le_eq, le_eq, h]
    exact ⟨htotal, htotal⟩

/-- A path that goes from the root to its place by valid names. -/
def IsResolved (p : Path) : Prop :=
  ∃ place : Place, (∀ name ∈ place, ValidName name) ∧ p = place.path

theorem IsResolved.le_antisymm {p q : Path} (hp : p.IsResolved) (hq : q.IsResolved)
    (hpq : p.le q = true) (hqp : q.le p = true) : p = q := by
  obtain ⟨place, hplace, rfl⟩ := hp
  obtain ⟨other, hother, rfl⟩ := hq
  have hcomponents := le_and_le_iff.mp ⟨hpq, hqp⟩
  rw [Place.components_path hplace, Place.components_path hother] at hcomponents
  have hname : Function.Injective Component.name := fun _ _ h => Component.name.inj h
  rw [hname.list_map (List.cons.inj hcomponents).2]

end Path
end ScriptAudit
