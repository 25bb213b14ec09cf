import ScriptAudit.Proofs.File.Canonical

/-! # The order of joined paths

Names that are joined to a path are further components, so the paths below a directory are ordered
as the places are to which they lead. Main statements: `components_foldl_join` and `le_foldl_join`.
-/
namespace ScriptAudit

namespace Path

variable {p : Path} {name : FileName} {names names' : Place}

theorem pieces_ne_singleton_nil (hne : p.bytes ≠ []) : p.pieces ≠ [[]] := by
  unfold pieces
  intro hpieces
  have hlength : 1 = p.bytes.count slash + 1 := by
    rw [← Text.length_split, hpieces, List.length_singleton]
  have hslash : slash ∉ p.bytes := List.count_eq_zero.mp (Nat.succ.inj hlength).symm
  rw [Text.split_of_not_mem hslash, List.singleton_inj] at hpieces
  exact hne hpieces

theorem components_join (hne : p.bytes ≠ []) (hname : ValidName name) :
    (p.join name).components = p.components ++ [.name name] := by
  obtain ⟨init, hjoin, hpieces⟩ := exists_pieces_join hne hname.slash_not_mem
  have hinit : init ≠ [] := by
    rintro rfl
    rcases hpieces with hpieces | hpieces
    · exact Text.split_ne_nil _ _ hpieces
    · exact pieces_ne_singleton_nil hne hpieces
  have hhead : p.pieces.head? = init.head? := by
    rcases hpieces with hpieces | hpieces
    · rw [hpieces]
    · rw [hpieces, List.head?_append_of_ne_nil _ hinit]
  have hkept : p.pieces.filterMap Component.ofPiece? = init.filterMap Component.ofPiece? := by
    rcases hpieces with hpieces | hpieces
    · rw [hpieces]
    · rw [hpieces, List.filterMap_append, List.filterMap_cons_none ofPiece?_nil, List.filterMap_nil,
        List.append_nil]
  unfold components anchor
  rw [isAbsolute_join hne, hjoin, hhead, hkept, List.head?_append_of_ne_nil _ hinit,
    List.filterMap_append, List.append_assoc]
  simp [hname.ofPiece?]

theorem components_foldl_join (hne : p.bytes ≠ []) (h : ∀ name ∈ names, ValidName name) :
    (names.foldl join p).components = p.components ++ names.map .name := by
  induction names generalizing p with
  | nil => simp
  | cons name names ih =>
    obtain ⟨hname, h⟩ := List.forall_mem_cons.mp h
    rw [List.foldl_cons, ih (bytes_join_ne_nil hne name) h, components_join hne hname,
      List.append_assoc, List.map_cons, List.singleton_append]

end Path

theorem compare_append_left {α : Type} [Ord α] [Std.ReflOrd α] (xs ys zs : List α) :
    compare (xs ++ ys) (xs ++ zs) = compare ys zs := by
  induction xs with
  | nil => rfl
  | cons x xs ih =>
    rw [List.cons_append, List.cons_append, List.compare_cons_cons, Std.compare_self,
      Ordering.eq_then, ih]

/-- Names are compared as components of a path as they are in a place. -/
theorem Place.compare_keys (names names' : Place) :
    compare (names.map fun name => (Path.Component.name name).key)
        (names'.map fun name => (Path.Component.name name).key) =
      compare (names.map (·.map UInt8.toNat)) (names'.map (·.map UInt8.toNat)) := by
  have hkey : ∀ a b : FileName,
      compare (Path.Component.name a).key (Path.Component.name b).key =
        compare (a.map UInt8.toNat) (b.map UInt8.toNat) := fun a b =>
    compare_append_left [3] (a.map UInt8.toNat) (b.map UInt8.toNat)
  induction names generalizing names' with
  | nil => cases names' <;> rfl
  | cons a names ih =>
    cases names' with
    | nil => rfl
    | cons b names' =>
      simp only [List.map_cons, List.compare_cons_cons, hkey, ih]

namespace Path

variable {p : Path} {names names' : Place}

theorem le_foldl_join (hne : p.bytes ≠ []) (h : ∀ name ∈ names, ValidName name)
    (h' : ∀ name ∈ names', ValidName name) :
    (names.foldl join p).le (names'.foldl join p) = Place.le names names' := by
  unfold le key Place.le
  rw [components_foldl_join hne h, components_foldl_join hne h', List.map_append, List.map_append,
    compare_append_left, List.map_map, List.map_map]
  exact congrArg Ordering.isLE (Place.compare_keys names names')

end Path
end ScriptAudit
