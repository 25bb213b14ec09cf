import Mathlib.Data.List.Nodup
import ScriptAudit.Proofs.Discovery.Listing

/-! # Walks through a tree

A walk takes the names in a directory in their order and goes through each directory on its way
before it goes on to the next name, down to a depth that is given. Main statements: `mem_walk`, by
which a walk comes upon all files that do not lie too deep, and `walk_eq_filter`, by which it comes
upon them in the order of their places.
-/
namespace ScriptAudit

namespace Place

theorem le_cons_cons_self (a : FileName) (p q : Place) : le (a :: p) (a :: q) = le p q := by
  unfold le
  rw [List.map_cons, List.map_cons, List.compare_cons_cons, Std.compare_self, Ordering.eq_then]

/-- Different names settle the order of the places below them. -/
theorem le_cons_cons_of_ne {a b : FileName} (hle : nameLe a b = true) (hne : a ≠ b)
    (p q : Place) : le (a :: p) (b :: q) = true := by
  unfold le
  rw [List.map_cons, List.map_cons, List.compare_cons_cons]
  rcases Ordering.isLE_iff_eq_lt_or_eq_eq.mp hle with hlt | heq
  · rw [hlt]
    rfl
  · have hbyte : Function.Injective UInt8.toNat := fun _ _ => UInt8.toNat_inj.mp
    exact absurd (hbyte.list_map (Std.LawfulEqCmp.eq_of_compare heq)) hne

/-- One place comes before another one. -/
def Before (p q : Place) : Prop := le p q = true ∧ p ≠ q

theorem Before.le_eq_false {p q : Place} (h : p.Before q) : le q p = false :=
  Bool.eq_false_iff.mpr fun hle => h.2 (le_antisymm h.1 hle)

end Place

namespace FileTree

variable {t : FileTree} {top names : Place} {name : FileName} {depth : Nat}

theorem map_filterMap_sublist {α : Type} {f : Place × Entry → Option α} {placeOf : α → Place}
    {es : List (Place × Entry)} (h : ∀ e ∈ es, ∀ a, f e = some a → placeOf a = e.1) :
    ((es.filterMap f).map placeOf).Sublist (es.map (·.1)) := by
  induction es with
  | nil => exact .refl _
  | cons e es ih =>
    obtain ⟨he, hes⟩ := List.forall_mem_cons.mp h
    rw [List.filterMap_cons, List.map_cons]
    cases hfe : f e with
    | none => exact (ih hes).cons _
    | some a =>
      rw [List.map_cons, he a hfe]
      exact (ih hes).cons_cons _

/-- Different entries have different places, so what tells of its place is told once. -/
theorem WellFormed.nodup_filterMap (ht : t.WellFormed) {α : Type} {f : Place × Entry → Option α}
    (placeOf : α → Place) (h : ∀ e ∈ t.entries, ∀ a, f e = some a → placeOf a = e.1) :
    (t.entries.filterMap f).Nodup :=
  List.Nodup.of_map placeOf (ht.nodup.sublist (map_filterMap_sublist h))

theorem WellFormed.nodup_names (ht : t.WellFormed) (top : Place) : (t.names top).Nodup := by
  unfold names
  rw [(List.mergeSort_perm _ _).nodup_iff]
  refine ht.nodup_filterMap (fun name => top ++ [name]) ?_
  rintro ⟨place, e⟩ _ name hname
  obtain ⟨rfl, hlast⟩ := Option.ite_none_right_eq_some.mp hname
  obtain ⟨init, rfl⟩ := List.getLast?_eq_some_iff.mp hlast
  rw [List.dropLast_concat]

theorem WellFormed.nodup_filesBelow (ht : t.WellFormed) (top : Place) :
    (t.filesBelow top).Nodup := by
  unfold filesBelow
  rw [(List.mergeSort_perm _ _).nodup_iff]
  refine ht.nodup_filterMap (fun names => top ++ names) ?_
  rintro ⟨place, e⟩ _ names hnames
  cases e with
  | directory | link => cases hnames
  | file bytes =>
    obtain ⟨hstarts, hdrop⟩ := Option.ite_none_right_eq_some.mp hnames
    obtain ⟨behind, rfl⟩ := List.isPrefixOf_iff_prefix.mp hstarts
    rw [List.drop_left, Option.some.injEq] at hdrop
    rw [hdrop]

theorem WellFormed.pairwise_filesBelow (ht : t.WellFormed) (top : Place) :
    (t.filesBelow top).Pairwise Place.Before :=
  (List.pairwise_mergeSort Place.le_trans Place.le_total _).and (ht.nodup_filesBelow top)

theorem WellFormed.ne_nil_of_mem_filesBelow (ht : t.WellFormed)
    (hdir : t.get? top = some .directory) (h : names ∈ t.filesBelow top) : names ≠ [] := by
  rintro rfl
  obtain ⟨bytes, hget⟩ := (mem_filesBelow ht).mp h
  rw [List.append_nil, hdir] at hget
  cases hget

/-- What a walk comes upon at a name: the file itself, or what it comes upon below the directory.
Links are not followed. -/
def walkAt (below : List Place) (name : FileName) : Option Entry → List Place
  | some (.file _) => [[name]]
  | some .directory => below.map (name :: ·)
  | _ => []

/-- The files that a walk from a directory comes upon, down to the given depth, relative to the
directory. -/
def walk (t : FileTree) : Nat → Place → List Place
  | 0, _ => []
  | depth + 1, top => (t.names top).flatMap fun name =>
    walkAt (t.walk depth (top ++ [name])) name (t.get? (top ++ [name]))

theorem mem_walkAt {below : List Place} {e? : Option Entry} :
    names ∈ walkAt below name e? ↔ ∃ rest, names = name :: rest ∧
      ((rest = [] ∧ ∃ bytes, e? = some (.file bytes)) ∨ e? = some .directory ∧ rest ∈ below) := by
  rcases e? with _ | _ | _ | _ <;> simp [walkAt, eq_comm, and_comm]

theorem pairwise_walkAt {below : List Place} {e? : Option Entry}
    (h : below.Pairwise Place.Before) : (walkAt below name e?).Pairwise Place.Before := by
  unfold walkAt
  split
  · exact List.pairwise_singleton _ _
  · rw [List.pairwise_map]
    refine h.imp ?_
    rintro p q ⟨hle, hne⟩
    exact ⟨by rwa [Place.le_cons_cons_self], fun heq => hne (List.cons.inj heq).2⟩
  · exact .nil

theorem mem_walk_succ (ht : t.WellFormed) : names ∈ t.walk (depth + 1) top ↔
    ∃ name rest, names = name :: rest ∧
      ((rest = [] ∧ ∃ bytes, t.get? (top ++ [name]) = some (.file bytes)) ∨
        t.get? (top ++ [name]) = some .directory ∧ rest ∈ t.walk depth (top ++ [name])) := by
  rw [walk, List.mem_flatMap]
  constructor
  · rintro ⟨name, _, hnames⟩
    exact ⟨name, mem_walkAt.mp hnames⟩
  · rintro ⟨name, rest, hnames, hentry⟩
    refine ⟨name, (mem_names ht).mpr ?_, mem_walkAt.mpr ⟨rest, hnames, hentry⟩⟩
    rcases hentry with ⟨_, bytes, hget⟩ | ⟨hget, _⟩
    · exact ⟨_, hget⟩
    · exact ⟨_, hget⟩

/-- A walk comes upon the files that lie below its directory and not too deep. -/
theorem mem_walk (ht : t.WellFormed) : names ∈ t.walk depth top ↔
    names ≠ [] ∧ names.length ≤ depth ∧ ∃ bytes, t.get? (top ++ names) = some (.file bytes) := by
  induction depth generalizing top names with
  | zero =>
    have hwalk : t.walk 0 top = [] := rfl
    cases names <;> simp [hwalk]
  | succ depth ih =>
    rw [mem_walk_succ ht]
    constructor
    · rintro ⟨name, rest, rfl, ⟨rfl, hget⟩ | ⟨_, hrest⟩⟩
      · exact ⟨List.cons_ne_nil _ _, Nat.le_add_left 1 depth, hget⟩
      · obtain ⟨_, hlength, hget⟩ := ih.mp hrest
        rw [← List.append_cons] at hget
        exact ⟨List.cons_ne_nil _ _, Nat.succ_le_succ hlength, hget⟩
    · rintro ⟨hne, hlength, bytes, hget⟩
      obtain ⟨name, rest, rfl⟩ := List.exists_cons_of_ne_nil hne
      refine ⟨name, rest, rfl, ?_⟩
      cases rest with
      | nil => exact Or.inl ⟨rfl, bytes, hget⟩
      | cons next rest =>
        rw [List.append_cons] at hget
        refine Or.inr ⟨ht.get?_above hget, ih.mpr ⟨List.cons_ne_nil _ _, ?_, bytes, hget⟩⟩
        exact Nat.le_of_succ_le_succ hlength

/-- A walk comes upon the files in the order of their places. -/
theorem pairwise_walk (ht : t.WellFormed) : (t.walk depth top).Pairwise Place.Before := by
  induction depth generalizing top with
  | zero => exact .nil
  | succ depth ih =>
    rw [walk, List.pairwise_flatMap]
    refine ⟨fun name _ => pairwise_walkAt ih, ?_⟩
    refine ((t.pairwise_names top).and (ht.nodup_names top)).imp ?_
    rintro a b ⟨hle, hne⟩ p hp q hq
    obtain ⟨p, rfl, _⟩ := mem_walkAt.mp hp
    obtain ⟨q, rfl, _⟩ := mem_walkAt.mp hq
    exact ⟨Place.le_cons_cons_of_ne hle hne p q, fun heq => hne (List.cons.inj heq).1⟩

/-- The files below a directory are those that a walk comes upon, if it goes deep enough. -/
theorem walk_eq_filter (ht : t.WellFormed) (hdir : t.get? top = some .directory) (depth : Nat) :
    t.walk depth top = (t.filesBelow top).filter (·.length ≤ depth) := by
  have hbelow := (ht.pairwise_filesBelow top).filter fun names => decide (names.length ≤ depth)
  refine Place.eq_of_perm ((pairwise_walk ht).imp And.left) (hbelow.imp And.left) ?_
  rw [List.perm_ext_iff_of_nodup ((pairwise_walk ht).imp And.right) (hbelow.imp And.right)]
  intro names
  rw [mem_walk ht, List.mem_filter, decide_eq_true_iff, ← mem_filesBelow ht]
  constructor
  · rintro ⟨_, hlength, hmem⟩
    exact ⟨hmem, hlength⟩
  · rintro ⟨hmem, hlength⟩
    exact ⟨ht.ne_nil_of_mem_filesBelow hdir hmem, hlength, hmem⟩

end FileTree
end ScriptAudit
