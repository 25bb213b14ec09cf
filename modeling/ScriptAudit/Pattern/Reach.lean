import ScriptAudit.Pattern.Basic

/-! # How a pattern moves through a text

Reading only moves forward, so the outcome of a pattern at a cursor depends on its continuation
only at the cursors that can be reached from there. Main statements: `run_congr`, and
`rounds_eq`, by which further rounds satisfy their own equation whatever bound they started
with.
-/
namespace ScriptAudit

def Cursor.next? (s : Cursor) : Option Cursor :=
  match s.rest with
  | [] => none
  | c :: rest => some (s.advance c rest)

/-- Whether reading on from `s` can lead to `t`. -/
inductive Cursor.Reaches : Cursor → Cursor → Prop where
  | refl (s : Cursor) : Reaches s s
  | step {s t u : Cursor} : s.next? = some t → Reaches t u → Reaches s u

namespace Cursor

theorem next?_eq_some {s t : Cursor} (h : s.next? = some t) :
    ∃ c rest, s.rest = c :: rest ∧ t = s.advance c rest := by
  unfold next? at h
  split at h
  · cases h
  · next c rest hr => exact ⟨c, rest, hr, (Option.some.inj h).symm⟩

theorem index_next? {s t : Cursor} (h : s.next? = some t) : t.index = s.index + 1 := by
  obtain ⟨c, rest, _, rfl⟩ := next?_eq_some h
  rfl

theorem length_next? {s t : Cursor} (h : s.next? = some t) :
    t.rest.length + 1 = s.rest.length := by
  obtain ⟨c, rest, hr, rfl⟩ := next?_eq_some h
  simp [advance, hr]

namespace Reaches

theorem trans {s t u : Cursor} (h : Reaches s t) (h' : Reaches t u) : Reaches s u := by
  induction h with
  | refl => exact h'
  | step hn _ ih => exact step hn (ih h')

theorem add_length {s t : Cursor} (h : Reaches s t) :
    t.index + t.rest.length = s.index + s.rest.length := by
  induction h with
  | refl => rfl
  | step hn _ ih =>
    have hi := index_next? hn
    have hl := length_next? hn
    omega

theorem index_le {s t : Cursor} (h : Reaches s t) : s.index ≤ t.index := by
  induction h with
  | refl => exact Nat.le_refl _
  | step hn _ ih =>
    have hi := index_next? hn
    omega

/-- A place that is reached is the place itself or lies behind it. -/
theorem eq_or_lt {s t : Cursor} (h : Reaches s t) : t = s ∨ s.index < t.index := by
  cases h with
  | refl => exact Or.inl rfl
  | step hn h =>
    have hi := index_next? hn
    have hl := index_le h
    exact Or.inr (by omega)

theorem eq_of_not_lt {s t : Cursor} (h : Reaches s t) (hn : ¬ s.index < t.index) : t = s := by
  rcases eq_or_lt h with h | h
  · exact h
  · exact absurd h hn

end Reaches
end Cursor

namespace Pattern

open Cursor (Reaches)

/-- Two ways of going on that agree wherever reading on from `s` can lead. -/
def AgreeFrom (s : Cursor) (k k' : Continuation) : Prop := ∀ t, Reaches s t → k t = k' t

theorem AgreeFrom.mono {s t : Cursor} {k k' : Continuation} (h : AgreeFrom s k k')
    (hr : Reaches s t) : AgreeFrom t k k' := fun _ hu => h _ (hr.trans hu)

/-- Respects agreement of continuations. -/
def Local (body : Continuation → Continuation) : Prop :=
  ∀ {k k' : Continuation} {s : Cursor}, AgreeFrom s k k' → body k s = body k' s

theorem again_congr {greedy : Bool} {body : Continuation → Continuation} (hb : Local body)
    {k k' : Continuation} (n : Nat) {s : Cursor} (h : AgreeFrom s k k') :
    again greedy body k n s = again greedy body k' n s := by
  induction n generalizing s with
  | zero => exact h s (.refl s)
  | succ n ih =>
    unfold again
    congr 1
    · apply hb
      intro t ht
      simp only
      split
      · exact ih (h.mono ht)
      · rfl
    · exact h s (.refl s)

theorem run_congr (p : Pattern) : Local p.run := by
  induction p with
  | empty => intro k k' s h; exact h s (.refl s)
  | set cs =>
    intro k k' s h
    unfold run
    split
    · rfl
    · next c rest hr =>
      split
      · exact h _ (.step (by simp [Cursor.next?, hr]) (.refl _))
      · rfl
  | check a =>
    intro k k' s h
    unfold run
    split
    · exact h s (.refl s)
    · rfl
  | seq p q hp hq =>
    intro k k' s h
    exact hp fun t ht => hq (h.mono ht)
  | alt p q hp hq =>
    intro k k' s h
    unfold run
    rw [hp h, hq h]
  | plus greedy p hp =>
    intro k k' s h
    unfold run
    apply hp
    intro t ht
    simp only
    split
    · exact again_congr hp _ (h.mono ht)
    · exact h t ht
  | group n p hp =>
    intro k k' s h
    unfold run
    congr 1
    apply hp
    intro t ht
    simp only [h t ht]

theorem again_none {greedy : Bool} {body : Continuation → Continuation}
    (hb : ∀ s, body (fun _ => none) s = none) (n : Nat) (s : Cursor) :
    again greedy body (fun _ => none) n s = none := by
  induction n generalizing s with
  | zero => rfl
  | succ n ih =>
    have hk : (fun t : Cursor =>
        if s.index < t.index then again greedy body (fun _ => none) n t else none) =
        fun _ => none := by
      funext t
      split
      · exact ih t
      · rfl
    unfold again
    rw [hk, hb]
    cases greedy <;> rfl

theorem run_none (p : Pattern) (s : Cursor) : p.run (fun _ => none) s = none := by
  induction p generalizing s with
  | empty => rfl
  | set cs =>
    unfold run
    split
    · rfl
    · split <;> rfl
  | check a => unfold run; split <;> rfl
  | seq p q hp hq =>
    have hk : q.run (fun _ => none) = fun _ => none := funext hq
    unfold run
    rw [hk, hp]
  | alt p q hp hq => unfold run; rw [hp, hq]; rfl
  | plus greedy p hp =>
    have hk : (fun t : Cursor => if s.index < t.index
        then again greedy p.run (fun _ => none) t.rest.length t else none) = fun _ => none := by
      funext t
      split
      · exact again_none hp _ t
      · rfl
    unfold run
    rw [hk, hp]
  | group n p hp =>
    unfold run
    simp only [Option.map_none]
    rw [hp]
    rfl

/-- Rounds that may be added behind `s`, as many as there are characters left. -/
def rounds (greedy : Bool) (p : Pattern) (k : Continuation) : Continuation :=
  fun s => again greedy p.run k s.rest.length s

theorem again_eq_rounds (greedy : Bool) (p : Pattern) (k : Continuation) (n : Nat) {s : Cursor}
    (hn : s.rest.length ≤ n) : again greedy p.run k n s = rounds greedy p k s := by
  induction n using Nat.strongRecOn generalizing s with
  | _ n ih =>
    cases n with
    | zero =>
      have hl : s.rest.length = 0 := Nat.le_zero.mp hn
      unfold rounds
      rw [hl]
    | succ n =>
      cases hl : s.rest.length with
      | zero =>
        have hstop : AgreeFrom s
            (fun t => if s.index < t.index then again greedy p.run k n t else none)
            (fun _ => none) := by
          intro t ht
          have hsum := ht.add_length
          have hle := ht.index_le
          have : ¬ s.index < t.index := by omega
          simp only [this, if_false]
        have hbody := run_congr p hstop
        rw [run_none] at hbody
        unfold rounds
        rw [hl]
        unfold again
        rw [hbody]
        cases greedy
        · cases k s <;> rfl
        · rfl
      | succ m =>
        unfold rounds
        rw [hl]
        unfold again
        congr 1
        apply run_congr p
        intro t ht
        simp only
        split
        · next hlt =>
          have hsum := ht.add_length
          rw [ih n (Nat.lt_succ_self n) (by omega)]
          by_cases hm : m = n
          · rw [hm, ih n (Nat.lt_succ_self n) (by omega)]
          · rw [ih m (by omega) (by omega)]
        · rfl

/-- Going round again means one more round that reads something, or going on. -/
theorem rounds_eq (greedy : Bool) (p : Pattern) (k : Continuation) (s : Cursor) :
    rounds greedy p k s =
      prefer greedy (p.run (fun t => if s.index < t.index then rounds greedy p k t else none) s)
        (k s) := by
  rw [← again_eq_rounds greedy p k (s.rest.length + 1) (Nat.le_succ _)]
  unfold again
  congr 1
  apply run_congr p
  intro t ht
  simp only
  split
  · have hsum := ht.add_length
    exact again_eq_rounds greedy p k _ (by omega)
  · rfl

theorem run_plus (greedy : Bool) (p : Pattern) (k : Continuation) (s : Cursor) :
    (plus greedy p).run k s =
      p.run (fun t => if s.index < t.index then rounds greedy p k t else k t) s := rfl

end Pattern
end ScriptAudit
