import ScriptAudit.Pattern.Basic

/-! # The readings of a pattern

All ways to read a pattern, the preferred one or not, as a relation between the cursor at which a
reading starts, the cursor at which it stops and the group edges passed in between. Main
statement: `run_sound`, by which an outcome stems from some reading and from going on behind it.
-/
namespace ScriptAudit

/-- The outcome `o` of going on, behind a reading that passed the edges `ms`. -/
def Outcome.behind (ms : List Mark) (o : Outcome) : Outcome := { o with marks := ms ++ o.marks }

@[simp] theorem Outcome.behind_nil (o : Outcome) : o.behind [] = o := rfl

@[simp] theorem Outcome.behind_behind (ms ns : List Mark) (o : Outcome) :
    (o.behind ns).behind ms = o.behind (ms ++ ns) := by
  simp [behind]

theorem Outcome.passing_eq_behind (m : Mark) (o : Outcome) : o.passing m = o.behind [m] := rfl

namespace Pattern

/-- Rounds of a body one after the other, each of which reads something. -/
inductive Rounds (body : Cursor → Cursor → List Mark → Prop) :
    Cursor → Cursor → List Mark → Prop where
  | done (s : Cursor) : Rounds body s s []
  | more {s t u : Cursor} {ms ns : List Mark} (hb : body s t ms) (hlt : s.index < t.index)
      (hr : Rounds body t u ns) : Rounds body s u (ms ++ ns)

/-- Whether the pattern can be read from one cursor to another, passing the given edges. As in
`run`, a first round that reads nothing is the only round. -/
def Reads : Pattern → Cursor → Cursor → List Mark → Prop
  | empty, s, t, ms => t = s ∧ ms = []
  | set cs, s, t, ms =>
    ∃ c rest, s.rest = c :: rest ∧ cs.contains c = true ∧ t = s.advance c rest ∧ ms = []
  | check a, s, t, ms => a.holds s = true ∧ t = s ∧ ms = []
  | seq p q, s, u, ms => ∃ t ns os, p.Reads s t ns ∧ q.Reads t u os ∧ ms = ns ++ os
  | alt p q, s, t, ms => p.Reads s t ms ∨ q.Reads s t ms
  | plus _ p, s, u, ms =>
    ∃ t ns os, p.Reads s t ns ∧ Rounds p.Reads t u os ∧
      (s.index < t.index ∨ u = t ∧ os = []) ∧ ms = ns ++ os
  | group n p, s, t, ms =>
    ∃ ns, p.Reads s t ns ∧ ms = [.opened n s.index] ++ ns ++ [.closed n t.index]

/-- Every outcome of `body` stems from a pair that `reads` relates and from going on behind it. -/
def Sound (body : Continuation → Continuation) (reads : Cursor → Cursor → List Mark → Prop) :
    Prop :=
  ∀ (k : Continuation) (s : Cursor) (o : Outcome), body k s = some o →
    ∃ t ms r, reads s t ms ∧ k t = some r ∧ o = r.behind ms

theorem orElse_eq_some {a b : Option Outcome} {o : Outcome} (h : (a <|> b) = some o) :
    a = some o ∨ b = some o := by
  cases a with
  | none => exact Or.inr h
  | some _ => exact Or.inl h

theorem prefer_eq_some {greedy : Bool} {more on : Option Outcome} {o : Outcome}
    (h : prefer greedy more on = some o) : more = some o ∨ on = some o := by
  cases greedy with
  | true => exact orElse_eq_some h
  | false => exact (orElse_eq_some h).symm

theorem again_sound {body : Continuation → Continuation}
    {reads : Cursor → Cursor → List Mark → Prop} (hb : Sound body reads) (greedy : Bool) (n : Nat) :
    Sound (fun k => again greedy body k n) (Rounds reads) := by
  intro k s o h
  induction n generalizing s o with
  | zero => exact ⟨s, [], o, .done s, h, rfl⟩
  | succ n ih =>
    rcases prefer_eq_some h with h | h
    · obtain ⟨t, ms, r, hread, hr, rfl⟩ := hb _ _ _ h
      split at hr
      · next hlt =>
        obtain ⟨u, ns, r', hround, hr', rfl⟩ := ih _ _ hr
        exact ⟨u, ms ++ ns, r', .more hread hlt hround, hr', by simp⟩
      · cases hr
    · exact ⟨s, [], o, .done s, h, rfl⟩

theorem run_sound (p : Pattern) : Sound p.run p.Reads := by
  induction p with
  | empty => intro k s o h; exact ⟨s, [], o, ⟨rfl, rfl⟩, h, rfl⟩
  | set cs =>
    intro k s o h
    unfold run at h
    split at h
    · cases h
    · next c rest hs =>
      split at h
      · next hc => exact ⟨_, [], o, ⟨c, rest, hs, hc, rfl, rfl⟩, h, rfl⟩
      · cases h
  | check a =>
    intro k s o h
    unfold run at h
    split at h
    · next ha => exact ⟨s, [], o, ⟨ha, rfl, rfl⟩, h, rfl⟩
    · cases h
  | seq p q hp hq =>
    intro k s o h
    obtain ⟨t, ms, r, hread, hr, rfl⟩ := hp _ _ _ h
    obtain ⟨u, ns, r', hread', hr', rfl⟩ := hq _ _ _ hr
    exact ⟨u, ms ++ ns, r', ⟨t, ms, ns, hread, hread', rfl⟩, hr', by simp⟩
  | alt p q hp hq =>
    intro k s o h
    unfold run at h
    rcases orElse_eq_some h with h | h
    · obtain ⟨t, ms, r, hread, hr, rfl⟩ := hp _ _ _ h
      exact ⟨t, ms, r, Or.inl hread, hr, rfl⟩
    · obtain ⟨t, ms, r, hread, hr, rfl⟩ := hq _ _ _ h
      exact ⟨t, ms, r, Or.inr hread, hr, rfl⟩
  | plus greedy p hp =>
    intro k s o h
    unfold run at h
    obtain ⟨t, ms, r, hread, hr, rfl⟩ := hp _ _ _ h
    split at hr
    · next hlt =>
      obtain ⟨u, ns, r', hround, hr', rfl⟩ := again_sound hp greedy _ _ _ _ hr
      exact ⟨u, ms ++ ns, r', ⟨t, ms, ns, hread, hround, Or.inl hlt, rfl⟩, hr', by simp⟩
    · exact ⟨t, ms, r, ⟨t, ms, [], hread, .done t, Or.inr ⟨rfl, rfl⟩, by simp⟩, hr, rfl⟩
  | group n p hp =>
    intro k s o h
    unfold run at h
    obtain ⟨o', ho', rfl⟩ := Option.map_eq_some_iff.mp h
    obtain ⟨t, ms, r, hread, hr, rfl⟩ := hp _ _ _ ho'
    obtain ⟨r', hr', rfl⟩ := Option.map_eq_some_iff.mp hr
    exact ⟨t, _, r', ⟨ms, hread, rfl⟩, hr', by simp [Outcome.passing_eq_behind]⟩

/-! Readings of sequences and choices. -/

variable {ps qs : List Pattern} {s t : Cursor} {ms : List Mark}

theorem reads_seqAll_cons {p : Pattern} (h : (seqAll (p :: ps)).Reads s t ms) :
    ∃ u ns os, p.Reads s u ns ∧ (seqAll ps).Reads u t os := by
  cases ps with
  | nil => exact ⟨t, ms, [], h, rfl, rfl⟩
  | cons q ps =>
    obtain ⟨u, ns, os, hp, hps, _⟩ := h
    exact ⟨u, ns, os, hp, hps⟩

theorem reads_seqAll_append (h : (seqAll (ps ++ qs)).Reads s t ms) :
    ∃ u ns os, (seqAll ps).Reads s u ns ∧ (seqAll qs).Reads u t os := by
  induction ps generalizing s ms with
  | nil => exact ⟨s, [], ms, ⟨rfl, rfl⟩, h⟩
  | cons p ps ih =>
    obtain ⟨u, ns, os, hp, hrest⟩ := reads_seqAll_cons h
    obtain ⟨v, ns', os', hps, hqs⟩ := ih hrest
    cases ps with
    | nil =>
      obtain ⟨rfl, _⟩ := hps
      exact ⟨_, ns, os', hp, hqs⟩
    | cons q ps => exact ⟨v, ns ++ ns', os', ⟨u, ns, ns', hp, hps, rfl⟩, hqs⟩

theorem reads_altAll_iff (hps : ps ≠ []) :
    (altAll ps).Reads s t ms ↔ ∃ p ∈ ps, p.Reads s t ms := by
  induction ps with
  | nil => exact absurd rfl hps
  | cons p ps ih =>
    cases ps with
    | nil => simp [altAll]
    | cons q ps =>
      have hrest := ih (List.cons_ne_nil q ps)
      have halt : (altAll (p :: q :: ps)).Reads s t ms ↔
          p.Reads s t ms ∨ (altAll (q :: ps)).Reads s t ms := Iff.rfl
      rw [halt, hrest]
      simp only [List.mem_cons, exists_eq_or_imp]

end Pattern
end ScriptAudit
