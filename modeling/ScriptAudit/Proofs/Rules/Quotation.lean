import ScriptAudit.Proofs.Pattern.Greedy
import ScriptAudit.Proofs.Rules.HiddenCalls

/-! # From the name of a function to its argument

Behind the name of a function the rules skip white space, commas and parentheses, as many as there
are, and look for a quotation mark. None of these characters is a quotation mark itself, so the
place of the argument is settled by the end of the name. Main statements: `run_gap_quote` and
`run_call_quote`.
-/
namespace ScriptAudit

/-- A character that may stand between the name of a function and its first argument. -/
def Text.isSeparator (c : Char) : Bool := Unicode.isBlank c || c == ',' || c == '('

/-- Where the separators end that start at an index. -/
def Text.argumentAt (cs : List Char) (i : Nat) : Nat := runEnd isSeparator cs i

namespace Text
variable {cs : List Char} {i j : Nat} {c : Char}

theorem isQuote_eq_false_of_isSeparator (h : isSeparator c = true) : isQuote c = false := by
  cases hquote : isQuote c with
  | false => rfl
  | true =>
    rcases Bool.or_eq_true_iff.mp hquote with hc | hc
    · rw [eq_of_beq hc] at h
      exact absurd h (by decide)
    · rw [eq_of_beq hc] at h
      exact absurd h (by decide)

theorem argumentAt_of_not_isSeparator (hc : cs[i]? = some c) (h : isSeparator c = false) :
    argumentAt cs i = i := by
  apply runEnd_of_stops
  intro d hd
  obtain rfl : c = d := Option.some.inj (hc.symm.trans hd)
  exact h

theorem le_argumentAt (cs : List Char) (i : Nat) : i ≤ argumentAt cs i :=
  le_runEnd isSeparator cs i

/-- What a call has up to the first character of its argument. -/
theorem slice_argumentAt {word : List Char} (h : occursAt word cs i = true)
    (hc : cs[argumentAt cs (i + word.length)]? = some c) :
    slice cs i (argumentAt cs (i + word.length) + 1) =
      word ++ slice cs (i + word.length) (argumentAt cs (i + word.length)) ++ [c] := by
  have hle := le_argumentAt cs (i + word.length)
  rw [← slice_append (Nat.le_trans (Nat.le_add_right i _) hle) (Nat.le_succ _),
    ← slice_append (Nat.le_add_right i _) hle, slice_of_occursAt h, slice_of_getElem? hc]

end Text

namespace Pattern
open Cursor (ofIndex)

theorem contains_separators :
    (CharSet.unionAll [.blank, .one ',', .one '(']).contains = Text.isSeparator := by
  funext c
  simp [CharSet.contains_unionAll, CharSet.contains, Text.isSeparator, Bool.or_assoc]

theorem contains_quotes : (CharSet.ofList ['"', '\'']).contains = Text.isQuote := by
  funext c
  rw [CharSet.contains_ofList]
  simp [Text.isQuote, Bool.beq_eq_decide_eq]

theorem run_quote (k : Continuation) (text : List Char) (i : Nat) :
    quote.run k (ofIndex text i) =
      if text[i]?.any Text.isQuote then k (ofIndex text (i + 1)) else none := by
  rw [quote, run_set, contains_quotes]

/-- What follows the separators has to be a quotation mark. -/
theorem run_gap_quote (q : Pattern) (k : Continuation) (text : List Char) (i : Nat) :
    (seq gap (seq quote q)).run k (ofIndex text i) =
      if text[Text.argumentAt text i]?.any Text.isQuote then
        q.run k (ofIndex text (Text.argumentAt text i + 1))
      else none := by
  have hshut : ∀ j, i ≤ j → j < Text.argumentAt text i →
      (seq quote q).run k (ofIndex text j) = none := by
    intro j hij hj
    obtain ⟨c, hc, hseparator⟩ := (Text.covers_runEnd Text.isSeparator text i).passes j hij hj
    have hquote := Text.isQuote_eq_false_of_isSeparator hseparator
    exact (run_quote _ text j).trans (by simp [hc, hquote])
  have hrun : (seq gap (seq quote q)).run k (ofIndex text i) =
      gap.run ((seq quote q).run k) (ofIndex text i) := rfl
  rw [hrun, gap, run_star_set_of_shut, contains_separators]
  · exact run_quote (q.run k) text _
  · rwa [contains_separators]

/-- A call is read by its name first, and then from the argument on. -/
theorem run_call_quote (p q : Pattern) (k : Continuation) (text : List Char) (i : Nat) :
    (call p (seq quote q)).run k (ofIndex text i) =
      p.run ((seq gap (seq quote q)).run k) (ofIndex text i) := rfl

end Pattern
end ScriptAudit
