import ScriptAudit.Proofs.Pattern.Coverage
import ScriptAudit.Proofs.Text.Occurrences
import ScriptAudit.Rules.Api

/-! # Searching for a word

A literal pattern is read wherever its characters stand. If it cannot overlap itself, a search finds
all of its occurrences, and of a word that has to start at a word boundary all those that do not
follow a character of a word. Main statements: `lines_search_of_separate`, `lines_search_literal` and
`lines_search_wordStart`.
-/
namespace ScriptAudit
open Pattern

namespace Pattern

theorem run_set (cs : CharSet) (k : Continuation) (text : List Char) (i : Nat) :
    (set cs).run k (.ofIndex text i) =
      if text[i]?.any cs.contains then k (.ofIndex text (i + 1)) else none := by
  rw [← List.head?_drop]
  cases h : text.drop i with
  | nil => simp [run, h]
  | cons d rest =>
    simp only [run, Cursor.rest_ofIndex, h, Cursor.advance_ofIndex h]
    rfl

theorem run_char (c : Char) (k : Continuation) (text : List Char) (i : Nat) :
    (char c).run k (.ofIndex text i) =
      if text[i]? = some c then k (.ofIndex text (i + 1)) else none := by
  rw [char, run_set]
  cases text[i]? <;> simp [CharSet.contains]

theorem run_seqAll_char (word : List Char) (k : Continuation) (text : List Char) (i : Nat) :
    (seqAll (word.map char)).run k (.ofIndex text i) =
      if Text.occursAt word text i then k (.ofIndex text (i + word.length)) else none := by
  induction word generalizing i with
  | nil => simp [seqAll, run, Text.occursAt]
  | cons c word ih =>
    have hseq : (seqAll ((c :: word).map char)).run k (.ofIndex text i) =
        if text[i]? = some c then (seqAll (word.map char)).run k (.ofIndex text (i + 1)) else none := by
      cases word with
      | nil => exact run_char c k text i
      | cons d word => exact run_char c _ text i
    rw [hseq, ih, List.length_cons, Nat.add_comm word.length, ← Nat.add_assoc]
    by_cases hc : text[i]? = some c
    · simp only [Text.occursAt_cons, hc, if_true, true_and]
    · simp only [Text.occursAt_cons, hc, if_false, false_and]

theorem run_literal (word : String) (k : Continuation) (text : List Char) (i : Nat) :
    (literal word).run k (.ofIndex text i) =
      if Text.occursAt word.toList text i then k (.ofIndex text (i + word.toList.length)) else none :=
  run_seqAll_char word.toList k text i

theorem holds_wordBoundary {c : Char} (hc : Unicode.isWord c = true) {text : List Char} {i : Nat}
    (hnext : text[i]? = some c) :
    (Assertion.word .boundary false).holds (.ofIndex text i) = !Text.followsWord text i := by
  have hisWord : Assertion.isWordIn false = Unicode.isWord := by
    funext d
    simp [Assertion.isWordIn]
  have hhead : (Cursor.ofIndex text i).rest.head? = some c := by
    rw [Cursor.rest_ofIndex, List.head?_drop, hnext]
  rw [Assertion.holds, WordEdge.holds, hhead, hisWord, Option.any_some, hc, Cursor.last_ofIndex,
    Text.followsWord]
  cases Option.any Unicode.isWord (text.take i).getLast? <;> rfl

theorem run_wordStart {word : String} {c : Char} {others : List Char}
    (hword : word.toList = c :: others) (hc : Unicode.isWord c = true) (k : Continuation)
    (text : List Char) (i : Nat) :
    (Rules.wordStart word).run k (.ofIndex text i) =
      if Text.occursAt word.toList text i && !Text.followsWord text i then
        k (.ofIndex text (i + word.toList.length))
      else none := by
  have hrun : (Rules.wordStart word).run k (.ofIndex text i) =
      if (Assertion.word .boundary false).holds (.ofIndex text i) then
        (literal word).run k (.ofIndex text i)
      else none := rfl
  rw [hrun, run_literal]
  cases hoccurs : Text.occursAt word.toList text i with
  | false => simp
  | true =>
    rw [hword, Text.occursAt_cons] at hoccurs
    simp [holds_wordBoundary hc hoccurs.1]

end Pattern

/-- Where occurrences do not run into each other, a search has a match for each of them that spans
few enough lines. -/
theorem Source.lines_search_of_separate {s : Source} {p : Pattern} (h : p.Separate s.chars)
    (maxLines : Nat) : (s.search p maxLines).map (·.line) =
      ((List.range (s.chars.length + 1)).filter fun i =>
        (p.run Cursor.finish (.ofIndex s.chars i)).any fun o =>
          (Occurrence.mk i o).lineSpan s.chars ≤ maxLines).map (Text.lineOf s.chars) := by
  have hsearch : s.search p maxLines = ((p.taken s.chars).filter fun m =>
      m.lineSpan s.chars ≤ maxLines).map (p.matchAs s.text (.ofText s.text)) :=
    search_eq p s.text _ maxLines
  rw [hsearch, h.taken_eq, List.filter_filterMap, List.map_map, List.map_filterMap,
    ← List.filterMap_eq_map, List.filterMap_filter]
  congr 1
  funext i
  cases p.run Cursor.finish (.ofIndex s.chars i) with
  | none => rfl
  | some o =>
    by_cases hspan : (Occurrence.mk i o).lineSpan s.chars ≤ maxLines
    · have hline : (p.matchAs s.text (.ofText s.text) ⟨i, o⟩).line = Text.lineOf s.chars i :=
        Cursor.lineAt_ofIndex s.text i
      simp [hspan, hline]
    · have hlt : maxLines < (Occurrence.mk i o).lineSpan s.chars := Nat.lt_of_not_le hspan
      simp [hspan, hlt]

theorem Source.lines_search {s : Source} {p : Pattern} {w : List Char} {test : Nat → Bool}
    (hline : '\n' ∉ w)
    (hrun : ∀ i, p.run Cursor.finish (.ofIndex s.chars i) =
      if test i then some ⟨i + w.length, []⟩ else none)
    (hapart : ∀ i j, test i = true → test j = true → i < j → i + w.length ≤ j)
    (hoccurs : ∀ i, test i = true → Text.occursAt w s.chars i = true) :
    (s.search p 1).map (·.line) =
      ((List.range (s.chars.length + 1)).filter test).map (Text.lineOf s.chars) := by
  have hread : ∀ m, p.OccursAs s.chars m → test m.first = true ∧ m.stop = m.first + w.length := by
    rintro m ⟨_, h⟩
    rw [hrun] at h
    split at h
    · next ht => exact ⟨ht, (congrArg Outcome.stop (Option.some.inj h)).symm⟩
    · cases h
  have hseparate : p.Separate s.chars := by
    intro m n hm hn hlt
    obtain ⟨hm, hmstop⟩ := hread m hm
    obtain ⟨hn, hnstop⟩ := hread n hn
    have hle := hapart _ _ hm hn hlt
    omega
  rw [lines_search_of_separate hseparate]
  congr 2
  funext i
  rw [hrun]
  cases ht : test i with
  | false => rfl
  | true =>
    have hpiece : (s.chars.drop i).take w.length = w :=
      (List.prefix_iff_eq_take.mp (List.isPrefixOf_iff_prefix.mp (hoccurs i ht))).symm
    simp [Occurrence.lineSpan, Occurrence.stop, hpiece, List.count_eq_zero_of_not_mem hline]

/-- A word on one line whose first character belongs to a word and does not recur. -/
structure Text.IsName (c : Char) (others : List Char) : Prop where
  isWord : Unicode.isWord c = true
  not_mem : c ∉ others
  newline_not_mem : '\n' ∉ c :: others

theorem Text.IsName.unbordered {c : Char} {others : List Char} (h : IsName c others) :
    Unbordered (c :: others) :=
  unbordered_cons h.not_mem

namespace Source
variable {word : String} {c : Char} {others : List Char}

theorem lines_search_literal (hline : '\n' ∉ word.toList) (h : Text.Unbordered word.toList)
    (s : Source) : (s.search (literal word) 1).map (·.line) =
      (Text.occurrences word.toList s.chars).map (Text.lineOf s.chars) := by
  apply lines_search (w := word.toList) hline
  · exact run_literal word _ s.chars
  · exact fun _ _ => h.add_length_le
  · exact fun _ hi => hi

theorem lines_search_wordStart (hword : word.toList = c :: others) (h : Text.IsName c others)
    (s : Source) : (s.search (Rules.wordStart word) 1).map (·.line) =
      ((Text.occurrences word.toList s.chars).filter fun i => !Text.followsWord s.chars i).map
        (Text.lineOf s.chars) := by
  have hoccurs : ∀ i, (Text.occursAt word.toList s.chars i && !Text.followsWord s.chars i) = true →
      Text.occursAt word.toList s.chars i = true := fun _ hi => (Bool.and_eq_true_iff.mp hi).1
  rw [Text.occurrences, List.filter_filter]
  simp only [Bool.and_comm (!_)]
  apply lines_search (w := word.toList)
  · rw [hword]
    exact h.newline_not_mem
  · exact run_wordStart hword h.isWord _ s.chars
  · intro i j hi hj hij
    have hi := hoccurs i hi
    have hj := hoccurs j hj
    rw [hword] at hi hj ⊢
    exact h.unbordered.add_length_le hi hj hij
  · exact hoccurs

end Source
end ScriptAudit
