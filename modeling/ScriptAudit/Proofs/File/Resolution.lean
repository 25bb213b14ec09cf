import ScriptAudit.Proofs.File.WellFormed

/-! # Ways through a tree

A way goes piece by piece from a directory to a place and replaces the links on it by their
targets. Main statements: `follow_eq_ok_iff`, by which a path is followed exactly along the ways
with few enough links, and `Leads.append` and `Leads.exists_directory`, by which a way can be
composed and cut at any directory on it.
-/
namespace ScriptAudit

namespace FileTree

/-- The pieces lead from one place to another over the given number of links. -/
inductive Leads (t : FileTree) : Nat → Place → List (List UInt8) → Place → Prop where
  | done (here : Place) : Leads t 0 here [] here
  | skip {k : Nat} {here place : Place} {piece : List UInt8} {ps : List (List UInt8)}
      (hpiece : Path.Component.ofPiece? piece = none) (h : Leads t k here ps place) :
      Leads t k here (piece :: ps) place
  | parent {k : Nat} {here place : Place} {piece : List UInt8} {ps : List (List UInt8)}
      (hpiece : Path.Component.ofPiece? piece = some .parent)
      (h : Leads t k here.dropLast ps place) : Leads t k here (piece :: ps) place
  | directory {k : Nat} {here place : Place} {name : FileName} {ps : List (List UInt8)}
      (hname : Path.Component.ofPiece? name = some (.name name)) (hlength : name.length ≤ maxName)
      (hget : t.get? (here ++ [name]) = some .directory)
      (h : Leads t k (here ++ [name]) ps place) : Leads t k here (name :: ps) place
  | file {here : Place} {name : FileName} {bytes : List UInt8}
      (hname : Path.Component.ofPiece? name = some (.name name)) (hlength : name.length ≤ maxName)
      (hget : t.get? (here ++ [name]) = some (.file bytes)) :
      Leads t 0 here [name] (here ++ [name])
  | link {k : Nat} {here place : Place} {name : FileName} {ps : List (List UInt8)} {target : Path}
      (hname : Path.Component.ofPiece? name = some (.name name)) (hlength : name.length ≤ maxName)
      (hget : t.get? (here ++ [name]) = some (.link target))
      (h : Leads t k (if target.isAbsolute then [] else here) (target.pieces ++ ps) place) :
      Leads t (k + 1) here (name :: ps) place

variable {t : FileTree} {here mid place : Place} {ps qs : List (List UInt8)} {i j k n : Nat}

/-- A descent goes along a way, if what it leaves to others does so with fewer links. -/
theorem exists_leads_of_descend {next : Place → List (List UInt8) → Except PathError Place}
    (hnext : ∀ base rest, next base rest = .ok place → ∃ k, k + 1 ≤ n ∧ t.Leads k base rest place)
    (h : t.descend next here ps = .ok place) : ∃ k ≤ n, t.Leads k here ps place := by
  induction ps generalizing here with
  | nil =>
    obtain rfl : here = place := Except.ok.inj h
    exact ⟨0, Nat.zero_le n, .done here⟩
  | cons piece ps ih =>
    rw [descend] at h
    rcases Path.Component.ofPiece?_cases piece with hp | hp | hp
    · rw [hp] at h
      obtain ⟨k, hk, hleads⟩ := ih h
      exact ⟨k, hk, .skip hp hleads⟩
    · rw [hp] at h
      obtain ⟨k, hk, hleads⟩ := ih h
      exact ⟨k, hk, .parent hp hleads⟩
    · simp only [hp] at h
      split at h
      · cases h
      · next hlength =>
        replace hlength := Nat.le_of_not_lt hlength
        split at h
        · cases h
        · next hget =>
          obtain ⟨k, hk, hleads⟩ := ih h
          exact ⟨k, hk, .directory hp hlength hget hleads⟩
        · next bytes hget =>
          split at h
          · next hempty =>
            cases h
            obtain rfl := List.isEmpty_iff.mp hempty
            exact ⟨0, Nat.zero_le n, .file hp hlength hget⟩
          · cases h
        · next target hget =>
          obtain ⟨k, hk, hleads⟩ := hnext _ _ h
          exact ⟨k + 1, hk, .link hp hlength hget hleads⟩

theorem exists_leads_of_follow (h : t.follow n here ps = .ok place) :
    ∃ k ≤ n, t.Leads k here ps place := by
  induction n generalizing here ps place with
  | zero =>
    apply exists_leads_of_descend _ h
    intro base rest hfollow
    cases hfollow
  | succ n ih =>
    apply exists_leads_of_descend _ h
    intro base rest hfollow
    obtain ⟨k, hk, hleads⟩ := ih hfollow
    exact ⟨k, Nat.succ_le_succ hk, hleads⟩

/-- What lies behind a link when `n` links may be followed. -/
def beyond (t : FileTree) : Nat → Place → List (List UInt8) → Except PathError Place
  | 0 => fun _ _ => .error .tooManyLinks
  | links + 1 => t.follow links

theorem follow_eq_descend (t : FileTree) (n : Nat) : t.follow n = t.descend (t.beyond n) := by
  cases n <;> rfl

theorem follow_of_leads (h : t.Leads k here ps place) (hk : k ≤ n) :
    t.follow n here ps = .ok place := by
  induction h generalizing n with
  | done here => rw [follow_eq_descend, descend]
  | skip hpiece _ ih =>
    rw [follow_eq_descend, descend, hpiece]
    exact follow_eq_descend t n ▸ ih hk
  | parent hpiece _ ih =>
    rw [follow_eq_descend, descend, hpiece]
    exact follow_eq_descend t n ▸ ih hk
  | directory hname hlength hget _ ih =>
    rw [follow_eq_descend, descend]
    simp only [hname, if_neg (Nat.not_lt_of_le hlength), hget]
    exact follow_eq_descend t n ▸ ih hk
  | file hname hlength hget =>
    rw [follow_eq_descend, descend]
    simp [hname, Nat.not_lt_of_le hlength, hget]
  | link hname hlength hget _ ih =>
    obtain ⟨m, rfl⟩ : ∃ m, n = m + 1 := ⟨n - 1, by omega⟩
    rw [follow_eq_descend, descend]
    simp only [hname, if_neg (Nat.not_lt_of_le hlength), hget]
    exact ih (Nat.le_of_succ_le_succ hk)

theorem follow_eq_ok_iff :
    t.follow n here ps = .ok place ↔ ∃ k ≤ n, t.Leads k here ps place := by
  constructor
  · exact exists_leads_of_follow
  · rintro ⟨k, hk, h⟩
    exact follow_of_leads h hk

namespace Leads

theorem unique (h : t.Leads j here ps mid) (h' : t.Leads k here ps place) : mid = place := by
  have hfollow := follow_of_leads h (Nat.le_max_left j k)
  rw [follow_of_leads h' (Nat.le_max_right j k)] at hfollow
  exact (Except.ok.inj hfollow).symm

theorem append (h : t.Leads j here ps mid) (hmid : t.get? mid = some .directory)
    (h' : t.Leads k mid qs place) : t.Leads (j + k) here (ps ++ qs) place := by
  induction h with
  | done here =>
    rw [Nat.zero_add]
    exact h'
  | skip hpiece _ ih => exact .skip hpiece (ih hmid h')
  | parent hpiece _ ih => exact .parent hpiece (ih hmid h')
  | directory hname hlength hget _ ih => exact .directory hname hlength hget (ih hmid h')
  | file hname hlength hget =>
    rw [hmid] at hget
    cases hget
  | link hname hlength hget _ ih =>
    have hrest := ih hmid h'
    rw [List.append_assoc] at hrest
    rw [Nat.add_right_comm]
    exact .link hname hlength hget hrest

/-- A way through a well-formed tree is at a directory wherever something is still to go. -/
theorem exists_directory (ht : t.WellFormed) (hhere : t.get? here = some .directory)
    (hqs : qs ≠ []) (h : t.Leads n here (ps ++ qs) place) :
    ∃ j k mid, j + k = n ∧ t.Leads j here ps mid ∧ t.get? mid = some .directory ∧
      t.Leads k mid qs place := by
  generalize hpieces : ps ++ qs = pieces at h
  induction h generalizing ps with
  | done here =>
    exact absurd (List.append_eq_nil_iff.mp hpieces).2 hqs
  | skip hpiece h ih =>
    cases ps with
    | nil =>
      obtain rfl : qs = _ := hpieces
      exact ⟨0, _, _, Nat.zero_add _, .done _, hhere, .skip hpiece h⟩
    | cons piece ps =>
      obtain ⟨rfl, htail⟩ := List.cons.inj hpieces
      obtain ⟨j, k, mid, hjk, hleads, hmid, hrest⟩ := ih hhere htail
      exact ⟨j, k, mid, hjk, .skip hpiece hleads, hmid, hrest⟩
  | parent hpiece h ih =>
    cases ps with
    | nil =>
      obtain rfl : qs = _ := hpieces
      exact ⟨0, _, _, Nat.zero_add _, .done _, hhere, .parent hpiece h⟩
    | cons piece ps =>
      obtain ⟨rfl, htail⟩ := List.cons.inj hpieces
      obtain ⟨j, k, mid, hjk, hleads, hmid, hrest⟩ := ih (ht.get?_dropLast hhere) htail
      exact ⟨j, k, mid, hjk, .parent hpiece hleads, hmid, hrest⟩
  | directory hname hlength hget h ih =>
    cases ps with
    | nil =>
      obtain rfl : qs = _ := hpieces
      exact ⟨0, _, _, Nat.zero_add _, .done _, hhere, .directory hname hlength hget h⟩
    | cons piece ps =>
      obtain ⟨rfl, htail⟩ := List.cons.inj hpieces
      obtain ⟨j, k, mid, hjk, hleads, hmid, hrest⟩ := ih hget htail
      exact ⟨j, k, mid, hjk, .directory hname hlength hget hleads, hmid, hrest⟩
  | file hname hlength hget =>
    cases ps with
    | nil =>
      obtain rfl : qs = _ := hpieces
      exact ⟨0, 0, _, rfl, .done _, hhere, .file hname hlength hget⟩
    | cons piece ps => exact absurd (List.append_eq_nil_iff.mp (List.cons.inj hpieces).2).2 hqs
  | link hname hlength hget h ih =>
    cases ps with
    | nil =>
      obtain rfl : qs = _ := hpieces
      exact ⟨0, _, _, Nat.zero_add _, .done _, hhere, .link hname hlength hget h⟩
    | cons piece ps =>
      obtain ⟨rfl, rfl⟩ := List.cons.inj hpieces
      obtain ⟨j, k, mid, hjk, hleads, hmid, hrest⟩ :=
        ih (by split <;> simp [hhere]) (List.append_assoc _ ps qs)
      exact ⟨j + 1, k, mid, by omega, .link hname hlength hget hleads, hmid, hrest⟩

/-- The last name of a way leads to the entry of this name or over a link. -/
theorem singleton_cases {name : FileName} (hname : Path.Component.ofPiece? name = some (.name name))
    (h : t.Leads n here [name] place) :
    (t.get? (here ++ [name]) = t.get? place ∧ place = here ++ [name]) ∨
      ∃ target, t.get? (here ++ [name]) = some (.link target) := by
  cases h with
  | skip hpiece _ => rw [hname] at hpiece; cases hpiece
  | parent hpiece _ => rw [hname] at hpiece; cases hpiece
  | directory _ _ _ h => cases h; exact Or.inl ⟨rfl, rfl⟩
  | file _ _ _ => exact Or.inl ⟨rfl, rfl⟩
  | link _ _ hget _ => exact Or.inr ⟨_, hget⟩

end Leads

/-- An entry that is no link is reached from its directory by its name. -/
theorem WellFormed.leads_singleton (ht : t.WellFormed) {name : FileName} {e : Entry}
    (hget : t.get? (here ++ [name]) = some e) (he : ∀ target, e ≠ .link target) :
    t.Leads 0 here [name] (here ++ [name]) := by
  have hname : Path.ValidName name := ht.validName hget (by simp)
  cases e with
  | file bytes => exact .file hname.ofPiece? hname.length_le hget
  | directory => exact .directory hname.ofPiece? hname.length_le hget (.done _)
  | link target => exact absurd rfl (he target)

end FileTree
end ScriptAudit
