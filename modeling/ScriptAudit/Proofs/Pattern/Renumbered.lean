import ScriptAudit.Pattern.Reader
import ScriptAudit.Proofs.Pattern.Reading

/-! # Patterns with other group numbers

When the groups of a pattern get higher numbers, its shape does not change, and neither do the
texts that it reads: only the edges of the groups are reported under other numbers. Main
statements: `repeated?_renumber` and `exists_reads_of_renumber`.
-/
namespace ScriptAudit
namespace Pattern

/-- The pattern with `n` added to the numbers of its groups. -/
def renumber (n : Nat) : Pattern → Pattern
  | empty => empty
  | set s => set s
  | check a => check a
  | seq p q => seq (p.renumber n) (q.renumber n)
  | alt p q => alt (p.renumber n) (q.renumber n)
  | plus greedy p => plus greedy (p.renumber n)
  | group m p => group (n + m) (p.renumber n)

section Forms
variable (n : Nat) (p : Pattern) (greedy : Bool)

@[simp] theorem size_renumber : (p.renumber n).size = p.size := by
  induction p with
  | empty | set s | check a => rfl
  | seq p q hp hq | alt p q hp hq => simp only [renumber, size, hp, hq]
  | plus greedy p hp | group m p hp => simp only [renumber, size, hp]

@[simp] theorem zeroWidth_renumber : (p.renumber n).zeroWidth = p.zeroWidth := by
  induction p with
  | empty | set s | check a => rfl
  | seq p q hp hq | alt p q hp hq => simp only [renumber, zeroWidth, hp, hq]
  | plus greedy p hp | group m p hp => simp only [renumber, zeroWidth, hp]

theorem renumber_seqAll (ps : List Pattern) :
    (seqAll ps).renumber n = seqAll (ps.map (renumber n)) := by
  induction ps with
  | nil => rfl
  | cons p ps ih =>
    cases ps with
    | nil => rfl
    | cons q ps => exact congrArg (seq (p.renumber n)) ih

theorem renumber_altAll (ps : List Pattern) :
    (altAll ps).renumber n = altAll (ps.map (renumber n)) := by
  induction ps with
  | nil => rfl
  | cons p ps ih =>
    cases ps with
    | nil => rfl
    | cons q ps => exact congrArg (alt (p.renumber n)) ih

theorem renumber_optional : (p.optional greedy).renumber n = (p.renumber n).optional greedy := by
  cases greedy <;> rfl

theorem renumber_upTo (most : Nat) :
    (p.upTo greedy most).renumber n = (p.renumber n).upTo greedy most := by
  induction most with
  | zero => rfl
  | succ most ih =>
    cases most with
    | zero => exact renumber_optional n p greedy
    | succ most => simp only [upTo, renumber_optional, renumber, ih]

theorem renumber_atLeast (least : Nat) :
    (p.atLeast greedy least).renumber n = (p.renumber n).atLeast greedy least := by
  cases least with
  | zero => simp only [atLeast, star, renumber_optional, renumber]
  | succ least => simp [atLeast, renumber_seqAll, renumber]

theorem renumber_times (least : Nat) (most : Option Nat) :
    (p.times least most greedy).renumber n = (p.renumber n).times least most greedy := by
  cases most with
  | none => exact renumber_atLeast n p greedy least
  | some most =>
    simp only [times]
    split <;> simp [renumber_seqAll, renumber_upTo]

theorem repeated?_renumber (d : Dialect) (least : Nat) (most : Option Nat) :
    Reader.repeated? d (p.renumber n) least most greedy =
      (Reader.repeated? d p least most greedy).map (renumber n) := by
  simp only [Reader.repeated?, zeroWidth_renumber, size_renumber]
  split <;> simp [renumber_times]

end Forms

/-! The texts that are read. -/

/-- If each round of one body is a round of the other one, whatever edges it passes, then so are
several rounds. -/
theorem Rounds.exists_of_imp {body body' : Cursor → Cursor → List Mark → Prop}
    (himp : ∀ s t ms, body s t ms → ∃ ns, body' s t ns) {s t : Cursor} {ms : List Mark}
    (h : Rounds body s t ms) : ∃ ns, Rounds body' s t ns := by
  induction h with
  | done s => exact ⟨[], .done s⟩
  | more hb hlt _ ih =>
    obtain ⟨ns, hns⟩ := himp _ _ _ hb
    obtain ⟨os, hos⟩ := ih
    exact ⟨ns ++ os, .more hns hlt hos⟩

/-- The numbers of the groups make no difference for where the pattern can be read. -/
theorem exists_reads_of_renumber {n : Nat} {p : Pattern} {s t : Cursor} {ms : List Mark}
    (h : (p.renumber n).Reads s t ms) : ∃ ns, p.Reads s t ns := by
  induction p generalizing s t ms with
  | empty | set cs | check a => exact ⟨ms, h⟩
  | seq p q hp hq =>
    obtain ⟨u, _, _, hread, hread', _⟩ := h
    obtain ⟨ns, hns⟩ := hp hread
    obtain ⟨os, hos⟩ := hq hread'
    exact ⟨ns ++ os, u, ns, os, hns, hos, rfl⟩
  | alt p q hp hq =>
    rcases h with h | h
    · obtain ⟨ns, hns⟩ := hp h
      exact ⟨ns, Or.inl hns⟩
    · obtain ⟨ns, hns⟩ := hq h
      exact ⟨ns, Or.inr hns⟩
  | plus greedy p hp =>
    obtain ⟨u, _, _, hread, hrounds, hfirst, _⟩ := h
    obtain ⟨ns, hns⟩ := hp hread
    rcases hfirst with hlt | ⟨rfl, _⟩
    · obtain ⟨os, hos⟩ := hrounds.exists_of_imp fun _ _ _ hround => hp hround
      exact ⟨ns ++ os, u, ns, os, hns, hos, Or.inl hlt, rfl⟩
    · exact ⟨ns ++ [], _, ns, [], hns, .done _, Or.inr ⟨rfl, rfl⟩, rfl⟩
  | group m p hp =>
    obtain ⟨_, hread, _⟩ := h
    obtain ⟨ns, hns⟩ := hp hread
    exact ⟨_, ns, hns, rfl⟩

end Pattern
end ScriptAudit
