import ScriptAudit.File.Tree
import ScriptAudit.Proofs.Text.Split

/-! # The last name of a path

A path that ends with a name goes by this name, whatever stands before it. Main statements:
`exists_pieces_join`, and `fileName?_path`, by which a place in a tree goes by its last name.
-/
namespace ScriptAudit

namespace Path

/-- What a file system takes as a name: no slash and no zero byte, neither of the names that have
a meaning of their own, and not too long. -/
structure ValidName (name : FileName) : Prop where
  ofPiece? : Component.ofPiece? name = some (.name name)
  slash_not_mem : slash ∉ name
  zero_not_mem : 0 ∉ name
  length_le : name.length ≤ FileTree.maxName

instance (name : FileName) : Decidable (ValidName name) :=
  decidable_of_iff (Component.ofPiece? name = some (.name name) ∧ slash ∉ name ∧ 0 ∉ name ∧
    name.length ≤ FileTree.maxName)
    ⟨fun ⟨h₁, h₂, h₃, h₄⟩ => ⟨h₁, h₂, h₃, h₄⟩, fun h => ⟨h.1, h.2, h.3, h.4⟩⟩

/-- A piece counts for nothing, leads to the parent or is a name. -/
theorem Component.ofPiece?_cases (piece : List UInt8) :
    ofPiece? piece = none ∨ ofPiece? piece = some .parent ∨ ofPiece? piece = some (.name piece) := by
  unfold ofPiece?
  split
  · exact Or.inl rfl
  · split
    · exact Or.inr (Or.inl rfl)
    · exact Or.inr (Or.inr rfl)

theorem ofPiece?_nil : Component.ofPiece? [] = none := rfl

theorem fileName?_of_pieces {p : Path} {init : List (List UInt8)} {name : FileName}
    (h : p.pieces = init ++ [name]) (hname : Component.ofPiece? name = some (.name name)) :
    p.fileName? = some name := by
  unfold fileName? components
  rw [h, List.filterMap_append, ← List.append_assoc]
  simp [hname]

/-- A path has the bytes of its name. -/
theorem mem_of_mem_fileName? {p : Path} {name : FileName} (h : p.fileName? = some name) {b : UInt8}
    (hb : b ∈ name) : b ∈ p.bytes := by
  unfold fileName? at h
  split at h
  · next n hlast =>
    obtain rfl := Option.some.inj h
    have hmem := List.mem_of_getLast? hlast
    rcases List.mem_append.mp hmem with hmem | hmem
    · unfold anchor at hmem
      repeat' split at hmem
      all_goals cases hmem
      all_goals contradiction
    · obtain ⟨piece, hpiece, hname⟩ := List.mem_filterMap.mp hmem
      rcases Component.ofPiece?_cases piece with hp | hp | hp
      all_goals
        rw [hp] at hname
        cases hname
      exact Text.mem_of_mem_split hpiece hb
  · cases h

/-- The name stands behind the pieces of the path, an empty one at their end left out. -/
theorem exists_pieces_join {p : Path} (hne : p.bytes ≠ []) {name : FileName}
    (hname : slash ∉ name) :
    ∃ init, (p.join name).pieces = init ++ [name] ∧
      (p.pieces = init ∨ p.pieces = init ++ [[]]) := by
  unfold join
  by_cases hlast : p.bytes.getLast? = some slash
  · rw [if_pos (Or.inr hlast)]
    obtain ⟨before, hbytes⟩ := List.getLast?_eq_some_iff.mp hlast
    refine ⟨Text.split slash before, ?_, Or.inr ?_⟩
    · simp only [pieces, hbytes, List.append_assoc, List.singleton_append]
      rw [Text.split_append_separator, Text.split_of_not_mem hname]
    · rw [pieces, hbytes, Text.split_append_separator, Text.split_nil]
  · rw [if_neg (not_or.mpr ⟨hne, hlast⟩)]
    refine ⟨p.pieces, ?_, Or.inl rfl⟩
    simp only [pieces]
    rw [Text.split_append_separator, Text.split_of_not_mem hname]

theorem bytes_join_ne_nil {p : Path} (hne : p.bytes ≠ []) (name : FileName) :
    (p.join name).bytes ≠ [] := by
  unfold join
  split <;> simp [hne]

theorem isAbsolute_join {p : Path} (hne : p.bytes ≠ []) (name : FileName) :
    (p.join name).isAbsolute = p.isAbsolute := by
  obtain ⟨b, bytes, hbytes⟩ := List.exists_cons_of_ne_nil hne
  unfold join isAbsolute
  split <;> simp [hbytes]

theorem zero_not_mem_join {p : Path} (hp : 0 ∉ p.bytes) {name : FileName} (hname : 0 ∉ name) :
    0 ∉ (p.join name).bytes := by
  have hslash : (0 : UInt8) ≠ slash := by decide
  unfold join
  split <;> simp [hp, hname, hslash]

end Path

theorem Place.fileName?_path {place : Place} {name : FileName} (hname : Path.ValidName name) :
    (path (place ++ [name])).fileName? = some name := by
  have hempty : (place ++ [name]).isEmpty = false := by simp
  have hpieces : (path (place ++ [name])).pieces =
      Text.split Path.slash (place.flatMap (Path.slash :: ·)) ++ [name] := by
    simp only [path, hempty, Path.pieces, List.flatMap_append, List.flatMap_singleton]
    exact (Text.split_append_separator _ _ _).trans
      (congrArg _ (Text.split_of_not_mem hname.slash_not_mem))
  exact Path.fileName?_of_pieces hpieces hname.ofPiece?

end ScriptAudit
