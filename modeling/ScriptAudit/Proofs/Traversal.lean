import Mathlib.Data.List.Forall2

/-! # Traversals that can fail

A list is gone through step by step until a step fails. Main statements: `mapM_eq_ok_iff`, by
which a traversal succeeds exactly when each step does, and `foldlM_map_eq`, by which results can
be collected first and worked in afterwards.
-/
namespace ScriptAudit
variable {ε α β γ : Type}

theorem bind_eq_ok_iff {x : Except ε α} {f : α → Except ε β} {b : β} :
    x >>= f = .ok b ↔ ∃ a, x = .ok a ∧ f a = .ok b := by
  constructor
  · intro h
    cases x with
    | error e => cases h
    | ok a => exact ⟨a, rfl, h⟩
  · rintro ⟨a, rfl, h⟩
    exact h

theorem map_eq_ok_iff {x : Except ε α} {f : α → β} {b : β} :
    f <$> x = .ok b ↔ ∃ a, x = .ok a ∧ f a = b := by
  constructor
  · intro h
    cases x with
    | error e => cases h
    | ok a => exact ⟨a, rfl, Except.ok.inj h⟩
  · rintro ⟨a, rfl, rfl⟩
    rfl

theorem mapM_eq_ok_iff {f : α → Except ε β} {xs : List α} {ys : List β} :
    xs.mapM f = .ok ys ↔ List.Forall₂ (fun x y => f x = .ok y) xs ys := by
  induction xs generalizing ys with
  | nil =>
    rw [List.forall₂_nil_left_iff]
    exact ⟨fun h => (Except.ok.inj h).symm, fun h => h ▸ rfl⟩
  | cons x xs ih =>
    rw [List.mapM_cons, bind_eq_ok_iff, List.forall₂_cons_left_iff]
    constructor
    · rintro ⟨y, hy, h⟩
      obtain ⟨rest, hrest, h⟩ := bind_eq_ok_iff.mp h
      exact ⟨y, rest, hy, ih.mp hrest, (Except.ok.inj h).symm⟩
    · rintro ⟨y, rest, hy, hrest, rfl⟩
      exact ⟨y, hy, bind_eq_ok_iff.mpr ⟨rest, ih.mpr hrest, rfl⟩⟩

theorem mapM_append_eq_ok {f : α → Except ε β} {xs xs' : List α} {ys ys' : List β}
    (h : xs.mapM f = .ok ys) (h' : xs'.mapM f = .ok ys') : (xs ++ xs').mapM f = .ok (ys ++ ys') := by
  rw [List.mapM_append, h, h']
  rfl

/-- Steps in another order succeed as well, and their results come in that order. -/
theorem exists_mapM_of_perm {f : α → Except ε β} {xs xs' : List α} (hperm : xs.Perm xs')
    {ys : List β} (h : xs.mapM f = .ok ys) : ∃ ys', xs'.mapM f = .ok ys' ∧ ys.Perm ys' := by
  simp only [mapM_eq_ok_iff] at *
  induction hperm generalizing ys with
  | nil => exact ⟨ys, h, .refl ys⟩
  | cons x _ ih =>
    obtain ⟨y, rest, hy, hrest, rfl⟩ := List.forall₂_cons_left_iff.mp h
    obtain ⟨rest', hrest', hperm⟩ := ih hrest
    exact ⟨y :: rest', .cons hy hrest', hperm.cons y⟩
  | swap x x' xs =>
    obtain ⟨y', _, hy', htail, rfl⟩ := List.forall₂_cons_left_iff.mp h
    obtain ⟨y, rest, hy, hrest, rfl⟩ := List.forall₂_cons_left_iff.mp htail
    exact ⟨y :: y' :: rest, .cons hy (.cons hy' hrest), .swap y y' rest⟩
  | trans _ _ ih ih' =>
    obtain ⟨ys', h', hperm⟩ := ih h
    obtain ⟨ys'', h'', hperm'⟩ := ih' h'
    exact ⟨ys'', h'', hperm.trans hperm'⟩

theorem mapM_map_eq (f : α → Except ε β) (g : β → γ) (xs : List α) :
    xs.mapM (fun x => g <$> f x) = List.map g <$> xs.mapM f := by
  induction xs with
  | nil => rfl
  | cons x xs ih =>
    rw [List.mapM_cons, List.mapM_cons, ih]
    cases f x with
    | error e => rfl
    | ok y => cases xs.mapM f <;> rfl

theorem exists_mapM_eq_ok {f : α → Except ε β} {xs : List α}
    (h : ∀ x ∈ xs, ∃ y, f x = .ok y) : ∃ ys, xs.mapM f = .ok ys := by
  induction xs with
  | nil => exact ⟨[], rfl⟩
  | cons x xs ih =>
    obtain ⟨y, hy⟩ := h x List.mem_cons_self
    obtain ⟨ys, hys⟩ := ih fun z hz => h z (List.mem_cons_of_mem _ hz)
    exact ⟨y :: ys, mapM_eq_ok_iff.mpr (.cons hy (mapM_eq_ok_iff.mp hys))⟩

theorem mapM_eq_ok_map {f : α → Except ε β} {g : α → β} {xs : List α}
    (h : ∀ x ∈ xs, f x = .ok (g x)) : xs.mapM f = .ok (xs.map g) := by
  rw [mapM_eq_ok_iff, List.forall₂_map_right_iff, List.forall₂_same]
  exact h

theorem mapM_congr_of_mem {f g : α → Except ε β} {xs : List α} (h : ∀ x ∈ xs, f x = g x) :
    xs.mapM f = xs.mapM g := by
  induction xs with
  | nil => rfl
  | cons x xs ih =>
    have htail := ih fun y hy => h y (List.mem_cons_of_mem _ hy)
    rw [List.mapM_cons, List.mapM_cons, h x List.mem_cons_self, htail]

/-- A traversal ends with the complaint of the first step that fails. -/
theorem mapM_eq_error_of_append {f : α → Except ε β} {before behind : List α} {x : α} {e : ε}
    (hbefore : ∀ y ∈ before, ∃ b, f y = .ok b) (hx : f x = .error e) :
    (before ++ x :: behind).mapM f = .error e := by
  obtain ⟨ys, hys⟩ := exists_mapM_eq_ok hbefore
  rw [List.mapM_append, hys, List.mapM_cons, hx]
  rfl

/-- Both fail alike, or both succeed with related results. -/
def Alike (R : β → γ → Prop) (x : Except ε β) (y : Except ε γ) : Prop :=
  (∃ e, x = .error e ∧ y = .error e) ∨ ∃ b c, x = .ok b ∧ y = .ok c ∧ R b c

theorem alike_mapM {R : β → γ → Prop} {f : α → Except ε β} {g : α → Except ε γ}
    (h : ∀ x, Alike R (f x) (g x)) (xs : List α) :
    Alike (List.Forall₂ R) (xs.mapM f) (xs.mapM g) := by
  induction xs with
  | nil => exact .inr ⟨[], [], rfl, rfl, .nil⟩
  | cons x xs ih =>
    rw [List.mapM_cons, List.mapM_cons]
    obtain ⟨e, hf, hg⟩ | ⟨b, c, hf, hg, hbc⟩ := h x
    · rw [hf, hg]
      exact .inl ⟨e, rfl, rfl⟩
    · rw [hf, hg]
      obtain ⟨e, hfs, hgs⟩ | ⟨bs, cs, hfs, hgs, hbcs⟩ := ih
      · rw [hfs, hgs]
        exact .inl ⟨e, rfl, rfl⟩
      · rw [hfs, hgs]
        exact .inr ⟨b :: bs, c :: cs, rfl, rfl, .cons hbc hbcs⟩

theorem mem_of_mapM_eq_ok {f : α → Except ε β} {xs : List α} {ys : List β}
    (h : xs.mapM f = .ok ys) {y : β} : y ∈ ys ↔ ∃ x ∈ xs, f x = .ok y := by
  replace h := mapM_eq_ok_iff.mp h
  induction h with
  | nil => simp
  | cons hx _ ih => simp [ih, hx, eq_comm]

theorem exists_mem_of_mapM_eq_ok {f : α → Except ε β} {xs : List α} {ys : List β}
    (h : xs.mapM f = .ok ys) {x : α} (hx : x ∈ xs) : ∃ y ∈ ys, f x = .ok y := by
  replace h := mapM_eq_ok_iff.mp h
  induction h with
  | nil => cases hx
  | cons hy _ ih =>
    rcases List.mem_cons.mp hx with rfl | hx
    · exact ⟨_, List.mem_cons_self, hy⟩
    · obtain ⟨y, hmem, hxy⟩ := ih hx
      exact ⟨y, List.mem_cons_of_mem _ hmem, hxy⟩

/-- Each step works its result into a state that no step reads. -/
theorem foldlM_map_eq (f : α → Except ε β) (g : γ → β → γ) (xs : List α) (a : γ) :
    xs.foldlM (fun a x => g a <$> f x) a = (fun ys => ys.foldl g a) <$> xs.mapM f := by
  induction xs generalizing a with
  | nil => rfl
  | cons x xs ih =>
    rw [List.foldlM_cons, List.mapM_cons]
    cases f x with
    | error e => rfl
    | ok y =>
      refine (ih (g a y)).trans ?_
      cases xs.mapM f <;> rfl

end ScriptAudit
