import ScriptAudit.Pattern.ColumnMeaning
import ScriptAudit.Proofs.Text.LineNumber

/-! # The places of a text by index

A text of `n` characters has `n + 1` places, one for each number of characters read so far. Main
statement: `outcomes_eq_map_range`, by which the outcomes of a pattern come place by place in the
order of the indices.
-/
namespace ScriptAudit

namespace Cursor

/-- The place of a text that has `i` characters before it. -/
def ofIndex (text : List Char) (i : Nat) : Cursor :=
  ⟨i, Text.byteSize (text.take i), (text.take i).getLast?, text.drop i⟩

@[simp] theorem index_ofIndex (text : List Char) (i : Nat) : (ofIndex text i).index = i := rfl

@[simp] theorem last_ofIndex (text : List Char) (i : Nat) :
    (ofIndex text i).last = (text.take i).getLast? := rfl

@[simp] theorem rest_ofIndex (text : List Char) (i : Nat) :
    (ofIndex text i).rest = text.drop i := rfl

theorem start_eq_ofIndex (text : List Char) : start text = ofIndex text 0 := rfl

theorem advance_ofIndex {text : List Char} {i : Nat} {c : Char} {rest : List Char}
    (h : text.drop i = c :: rest) : (ofIndex text i).advance c rest = ofIndex text (i + 1) := by
  have hc : text[i]? = some c := by rw [← List.head?_drop, h]; rfl
  have ht : text.take (i + 1) = text.take i ++ [c] := by rw [List.take_add_one, hc]; rfl
  have hd : text.drop (i + 1) = rest := by rw [← List.drop_drop, h]; rfl
  simp [ofIndex, advance, ht, hd]

theorem placesFrom_ofIndex {text cs : List Char} {i : Nat} (h : text.drop i = cs) :
    (ofIndex text i).placesFrom cs = (List.range' i (cs.length + 1)).map (ofIndex text) := by
  induction cs generalizing i with
  | nil => rfl
  | cons c cs ih =>
    have hd : text.drop (i + 1) = cs := by rw [← List.drop_drop, h]; rfl
    rw [placesFrom, advance_ofIndex h, ih hd]
    rfl

theorem places_eq_map_range (text : List Char) :
    places text = (List.range (text.length + 1)).map (ofIndex text) := by
  rw [places, start_eq_ofIndex, placesFrom_ofIndex (List.drop_zero), List.range_eq_range']

theorem lineAt_ofIndex (text : String) (i : Nat) :
    (LineIndex.ofText text).lineAt (ofIndex text.toList i).offset = Text.lineOf text.toList i :=
  LineIndex.lineAt_byteSize_take text i

end Cursor

theorem Pattern.outcomes_eq_map_range (p : Pattern) (text : List Char) :
    p.outcomes text = (List.range (text.length + 1)).map fun i =>
      (Cursor.ofIndex text i, p.run Cursor.finish (Cursor.ofIndex text i)) := by
  rw [outcomes_eq, Cursor.places_eq_map_range, List.map_map]
  rfl

end ScriptAudit
