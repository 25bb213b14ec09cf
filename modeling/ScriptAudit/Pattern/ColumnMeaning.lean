import ScriptAudit.Pattern.Column
import ScriptAudit.Pattern.Reach

/-! # The single pass gives the meaning

A column faces a continuation at a place when each of its sets holds the outcome, at that place, of
all that follows the set in the pattern. Main statement: `outcomes_eq`, by which the pass over a
text finds at every place what the meaning of the pattern says.
-/
namespace ScriptAudit

open Pattern (run rounds prefer AgreeFrom)

/-- The column that faces `k` at a place, or at the end of the text if there is no place. -/
def Column.facing : Pattern → Continuation → Option Cursor → Column
  | .empty, _, _ => empty
  | .set s, k, t => set s (t.bind k)
  | .check a, _, _ => check a
  | .seq p q, k, t => seq (facing p (q.run k) t) (facing q k t)
  | .alt p q, k, t => alt (facing p k t) (facing q k t)
  | .plus greedy p, k, t => plus greedy (facing p (rounds greedy p k) t)
  | .group n p, k, t => group n (facing p (fun u => (k u).map (·.passing (.closed n u.index))) t)

namespace Column

theorem facing_none (p : Pattern) (k : Continuation) : facing p k none = ofPattern p := by
  induction p generalizing k with
  | empty => rfl
  | set s => rfl
  | check a => rfl
  | seq p q hp hq => simp only [facing, ofPattern, hp, hq]
  | alt p q hp hq => simp only [facing, ofPattern, hp, hq]
  | plus greedy p hp => simp only [facing, ofPattern, hp]
  | group n p hp => simp only [facing, ofPattern, hp]

/-- With another outcome `after` of going on right here, a column gives the outcome of reading the
pattern and going on accordingly. -/
theorem value_facing (p : Pattern) (k : Continuation) (s : Cursor) (after : Option Outcome) :
    (facing p k s.next?).value s after =
      p.run (fun t => if s.index < t.index then k t else after) s := by
  induction p generalizing k after with
  | empty => simp [facing, value, run]
  | set cs =>
    unfold facing value run
    cases hr : s.rest with
    | nil => rfl
    | cons c rest => simp [Cursor.next?, hr, Cursor.advance]
  | check a => simp [facing, value, run]
  | seq p q hp hq =>
    simp only [facing, value, run]
    rw [hq, hp]
    apply Pattern.run_congr p
    intro t ht
    simp only
    split
    · next hlt =>
      apply Pattern.run_congr q
      intro u hu
      have hle := hu.index_le
      simp only [show s.index < u.index by omega, if_true]
    · next hn => rw [ht.eq_of_not_lt hn]
  | alt p q hp hq =>
    simp only [facing, value, run]
    rw [hp, hq]
  | plus greedy p hp =>
    simp only [facing, value]
    rw [hp, Pattern.run_plus]
    apply Pattern.run_congr p
    intro t ht
    simp only
    split
    · next hlt =>
      apply Pattern.again_congr (Pattern.run_congr p)
      intro u hu
      have hle := hu.index_le
      simp only [show s.index < u.index by omega, if_true]
    · rfl
  | group n p hp =>
    simp only [facing, value, run]
    rw [hp]
    congr 1
    apply Pattern.run_congr p
    intro t ht
    simp only
    split
    · rfl
    · next hn => rw [ht.eq_of_not_lt hn]

/-- With the outcome of `k` itself, a column gives the outcome of the pattern followed by `k`. -/
theorem value_facing_self (p : Pattern) (k : Continuation) (s : Cursor) :
    (facing p k s.next?).value s (k s) = p.run k s := by
  rw [value_facing]
  apply Pattern.run_congr p
  intro t ht
  simp only
  split
  · rfl
  · next hn => rw [ht.eq_of_not_lt hn]

theorem fst_retreat (s : Cursor) (c : Column) (after : Option Outcome) :
    (c.retreat s after).1 = c.value s after := by
  induction c generalizing after with
  | empty => rfl
  | set cs beyond => rfl
  | check a => rfl
  | seq p q hp hq => simp only [retreat, value, hp, hq]
  | alt p q hp hq => simp only [retreat, value, hp, hq]
  | plus greedy p hp => rfl
  | group n p hp => simp only [retreat, value, hp]

/-- Going back over a place turns a column that faces the next place into one that faces it. -/
theorem snd_retreat_facing (p : Pattern) (k : Continuation) (s : Cursor) :
    ((facing p k s.next?).retreat s (k s)).2 = facing p k (some s) := by
  induction p generalizing k with
  | empty => rfl
  | set cs => rfl
  | check a => rfl
  | seq p q hp hq =>
    simp only [facing, retreat]
    rw [fst_retreat, value_facing_self, hp (q.run k), hq]
  | alt p q hp hq => simp only [facing, retreat, hp, hq]
  | plus greedy p hp =>
    simp only [facing, retreat]
    rw [value_facing, ← Pattern.rounds_eq, hp]
  | group n p hp =>
    simp only [facing, retreat]
    rw [hp fun u => (k u).map (·.passing (.closed n u.index))]

end Column

namespace Cursor

def placesFrom (s : Cursor) : List Char → List Cursor
  | [] => [s]
  | c :: rest => s :: (s.advance c rest).placesFrom rest

def places (text : List Char) : List Cursor := (start text).placesFrom text

theorem foldl_backwards (cs : List Char) (s : Cursor) (before : List Cursor) (hs : s.rest = cs) :
    let r := cs.foldl (fun (s, before) c => (s.advance c s.rest.tail, s :: before)) (s, before)
    (r.1 :: r.2) = (s.placesFrom cs).reverse ++ before := by
  induction cs generalizing s before with
  | nil => rfl
  | cons c cs ih =>
    simp only [List.foldl_cons, hs, List.tail_cons, placesFrom, List.reverse_cons,
      List.append_assoc, List.singleton_append]
    exact ih (s.advance c cs) (s :: before) rfl

theorem placesBackwards_eq (text : List Char) :
    (placesBackwards text).1 :: (placesBackwards text).2 = (places text).reverse := by
  have h := foldl_backwards text (start text) [] rfl
  simpa [placesBackwards, places] using h

end Cursor

namespace Pattern

theorem foldr_retreat (p : Pattern) (s : Cursor) (cs : List Char) (hs : s.rest = cs) :
    (s.placesFrom cs).foldr (fun s (column, found) =>
        let (here, column) := column.retreat s s.finish
        (column, (s, here) :: found)) (Column.ofPattern p, []) =
      (Column.facing p Cursor.finish (some s),
        (s.placesFrom cs).map fun t => (t, p.run Cursor.finish t)) := by
  induction cs generalizing s with
  | nil =>
    have hn : s.next? = none := by simp [Cursor.next?, hs]
    simp only [Cursor.placesFrom, List.foldr_cons, List.foldr_nil, List.map_cons, List.map_nil]
    rw [← Column.facing_none p Cursor.finish, ← hn, Column.snd_retreat_facing,
      Column.fst_retreat, Column.value_facing_self]
  | cons c cs ih =>
    have hn : s.next? = some (s.advance c cs) := by simp [Cursor.next?, hs]
    simp only [Cursor.placesFrom, List.foldr_cons, List.map_cons]
    rw [ih (s.advance c cs) rfl, ← hn]
    simp only [Column.snd_retreat_facing, Column.fst_retreat, Column.value_facing_self]

/-- The outcomes found in one pass are those that the meaning of the pattern gives. -/
theorem outcomes_eq (p : Pattern) (text : List Char) :
    p.outcomes text = (Cursor.places text).map fun s => (s, p.run Cursor.finish s) := by
  unfold outcomes
  simp only [Cursor.placesBackwards_eq, List.foldl_reverse]
  have h := foldr_retreat p (Cursor.start text) text rfl
  simp only [Cursor.places]
  rw [h]

end Pattern
end ScriptAudit
