import Mathlib.Order.Monotone.Basic
import ScriptAudit.Proofs.Pattern.Matches

/-! # Outcomes at other indices

If all places of a text move to other indices, in the same order, then so do the groups of an
outcome and the matches of a search. Main statements: `Outcome.group_reindex`, `takeFrom_reindex`
and `takeFrom_append`.
-/
namespace ScriptAudit

namespace Mark

def reindex (f : Nat → Nat) : Mark → Mark
  | opened n i => opened n (f i)
  | closed n i => closed n (f i)

end Mark

namespace Outcome

def reindex (f : Nat → Nat) (o : Outcome) : Outcome := ⟨f o.stop, o.marks.map (Mark.reindex f)⟩

variable {f : Nat → Nat}

/-- A fold over marks for which it makes no difference when the indices change. -/
theorem foldl_reindex {g : Option Nat → Mark → Option Nat}
    (hg : ∀ found m, g (found.map f) (m.reindex f) = (g found m).map f) (ms : List Mark)
    (found : Option Nat) :
    (ms.map (Mark.reindex f)).foldl g (found.map f) = (ms.foldl g found).map f := by
  induction ms generalizing found with
  | nil => rfl
  | cons m ms ih => rw [List.map_cons, List.foldl_cons, List.foldl_cons, hg, ih]

theorem lastOpened_reindex (o : Outcome) (n : Nat) :
    (o.reindex f).lastOpened n = (o.lastOpened n).map f := by
  refine foldl_reindex (fun found m => ?_) o.marks none
  cases m with
  | opened g i => by_cases hg : g = n <;> simp [Mark.reindex, hg]
  | closed g i => rfl

theorem lastClosed_reindex (o : Outcome) (n : Nat) :
    (o.reindex f).lastClosed n = (o.lastClosed n).map f := by
  refine foldl_reindex (fun found m => ?_) o.marks none
  cases m with
  | opened g i => rfl
  | closed g i => by_cases hg : g = n <;> simp [Mark.reindex, hg]

theorem group_reindex (o : Outcome) (n : Nat) :
    (o.reindex f).group n = (o.group n).map (Prod.map f f) := by
  unfold group
  rw [lastOpened_reindex, lastClosed_reindex]
  cases o.lastOpened n <;> cases o.lastClosed n <;> rfl

end Outcome

theorem follows_reindex {f : Nat → Nat} (hf : StrictMono f) (lastEnd : Option Nat) {s s' : Cursor}
    (hs : s'.index = f s.index) (o : Outcome) :
    follows (lastEnd.map f) s' (o.reindex f) = follows lastEnd s o := by
  cases lastEnd with
  | none => rfl
  | some stop =>
    rw [Option.map_some, Bool.eq_iff_iff, follows_some_iff, follows_some_iff, hs]
    exact and_congr hf.le_iff_le hf.lt_iff_lt

/-- The matches among outcomes that are all moved in the same way. -/
theorem takeFrom_reindex {f : Nat → Nat} (hf : StrictMono f) (place : Cursor → Cursor)
    (hplace : ∀ s, (place s).index = f s.index) (outcomes : List (Cursor × Option Outcome))
    (lastEnd : Option Nat) :
    takeFrom (lastEnd.map f)
        (outcomes.map fun b => (place b.1, b.2.map (Outcome.reindex f))) =
      (takeFrom lastEnd outcomes).map fun m => (place m.1, m.2.reindex f) := by
  induction outcomes generalizing lastEnd with
  | nil => rfl
  | cons head outcomes ih =>
    obtain ⟨s, found⟩ := head
    cases found with
    | none => exact ih lastEnd
    | some o =>
      have htail := ih (some o.stop)
      simp only [takeFrom, List.map_cons, Option.map_some, follows_reindex hf lastEnd (hplace s)]
      split
      · rw [List.map_cons, ← htail]
        rfl
      · exact ih lastEnd

theorem takeFrom_cons_none (lastEnd : Option Nat) (s : Cursor)
    (outcomes : List (Cursor × Option Outcome)) :
    takeFrom lastEnd ((s, none) :: outcomes) = takeFrom lastEnd outcomes := rfl

/-- A match that all later outcomes may follow makes no difference for these. -/
theorem takeFrom_of_follows {outcomes : List (Cursor × Option Outcome)} {lastEnd : Option Nat}
    (h : ∀ s o, (s, some o) ∈ outcomes → follows lastEnd s o = true) :
    takeFrom lastEnd outcomes = takeFrom none outcomes := by
  induction outcomes with
  | nil => rfl
  | cons head outcomes ih =>
    obtain ⟨s, found⟩ := head
    cases found with
    | none => exact ih fun s o hs => h s o (List.mem_cons_of_mem _ hs)
    | some o =>
      have hnone : follows none s o = true := rfl
      rw [takeFrom, takeFrom, if_pos (h s o List.mem_cons_self), if_pos hnone]

/-- Outcomes that may follow all those before them are taken as if these were not there. -/
theorem takeFrom_append {outcomes later : List (Cursor × Option Outcome)} {lastEnd : Option Nat}
    (hlast : ∀ s o, (s, some o) ∈ later → follows lastEnd s o = true)
    (h : ∀ s o, (s, some o) ∈ outcomes → ∀ t r, (t, some r) ∈ later →
      follows (some o.stop) t r = true) :
    takeFrom lastEnd (outcomes ++ later) = takeFrom lastEnd outcomes ++ takeFrom none later := by
  induction outcomes generalizing lastEnd with
  | nil => exact takeFrom_of_follows hlast
  | cons head outcomes ih =>
    obtain ⟨s, found⟩ := head
    have htail : ∀ s o, (s, some o) ∈ outcomes → ∀ t r, (t, some r) ∈ later →
        follows (some o.stop) t r = true := fun s o hs => h s o (List.mem_cons_of_mem _ hs)
    cases found with
    | none => exact ih hlast htail
    | some o =>
      simp only [List.cons_append, takeFrom]
      split
      · rw [ih (h s o List.mem_cons_self) htail, List.cons_append]
      · exact ih hlast htail

end ScriptAudit
