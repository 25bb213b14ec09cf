import ScriptAudit.Pattern.Call
import ScriptAudit.Proofs.Pattern.Length

/-! # The layout of what is found

The matches of a search lie in the text one behind the other, with gaps around them. How many lines
a match may span settles only which of the matches are kept, so a search that permits fewer lines
has the matches of one that permits more, without those that are too long. Main statements:
`laidOut_search`, `search_eq_filter` and `searchWritten?_finds`.
-/
namespace ScriptAudit

namespace Pattern

variable {p : Pattern} {text : List Char}

/-- Behind the text `before`, another text is cut into gaps and matches. At the start of a match the
pattern is read as far as the match goes, and its line is found by counting the lines in front. -/
inductive LaidOut (p : Pattern) : List Char → List Char → List Match → Prop where
  | done (before gap : List Char) : LaidOut p before gap []
  | found {before gap rest : List Char} {m : Match} {ms : List Match} {o : Outcome}
      (hoccurs : p.OccursAs (before ++ gap ++ m.text.toList ++ rest) ⟨(before ++ gap).length, o⟩)
      (hstop : o.stop = (before ++ gap ++ m.text.toList).length)
      (hline : m.line = 1 + (before ++ gap).count '\n')
      (h : LaidOut p (before ++ gap ++ m.text.toList) rest ms) :
      LaidOut p before (gap ++ m.text.toList ++ rest) (m :: ms)

/-- No match is on a line before the text in which it lies. -/
theorem LaidOut.le_line {before cs : List Char} {ms : List Match} (h : p.LaidOut before cs ms) :
    ∀ m ∈ ms, 1 + before.count '\n' ≤ m.line := by
  induction h with
  | done => exact fun m hm => absurd hm List.not_mem_nil
  | found _ _ hline _ ih =>
    intro m hm
    rcases List.mem_cons.mp hm with rfl | hm
    · rw [hline, List.count_append]
      omega
    · have hle := ih m hm
      simp only [List.count_append] at hle
      omega

/-- Matches that lie one behind the other are on lines that never decrease. -/
theorem LaidOut.pairwise_line {before cs : List Char} {ms : List Match}
    (h : p.LaidOut before cs ms) : (ms.map (·.line)).Pairwise (· ≤ ·) := by
  induction h with
  | done => exact .nil
  | found _ _ hline h ih =>
    rw [List.map_cons, List.pairwise_cons]
    refine ⟨?_, ih⟩
    intro line hmem
    obtain ⟨m, hm, rfl⟩ := List.mem_map.mp hmem
    have hle := h.le_line m hm
    rw [List.count_append] at hle
    omega

theorem toList_text_matchAs (p : Pattern) (text : String) (lines : LineIndex) (m : Occurrence) :
    (p.matchAs text lines m).text.toList =
      (text.toList.drop m.first).take (m.stop - m.first) := by
  simp [matchAs, matchOf, Cursor.slice, Occurrence.stop]

theorem line_matchAs (p : Pattern) (text : String) (m : Occurrence) :
    (p.matchAs text (.ofText text) m).line = 1 + (text.toList.take m.first).count '\n' := by
  rw [Nat.add_comm]
  exact Cursor.lineAt_ofIndex text m.first

theorem take_append_take_drop (cs : List Char) {i j : Nat} (h : i ≤ j) :
    cs.take i ++ (cs.drop i).take (j - i) = cs.take j := by
  rw [← List.take_add, Nat.add_sub_cancel' h]

/-- Occurrences that do not overlap are laid out as matches in the text behind the first `i`
characters. -/
theorem laidOut_of_pairwise {text : String} {ms : List Occurrence}
    (hoccurs : ∀ m ∈ ms, p.OccursAs text.toList m)
    (hpair : ms.Pairwise fun m n => m.stop ≤ n.first) {i : Nat} (hi : ∀ m ∈ ms, i ≤ m.first) :
    p.LaidOut (text.toList.take i) (text.toList.drop i)
      (ms.map (p.matchAs text (.ofText text))) := by
  induction ms generalizing i with
  | nil => exact .done _ _
  | cons m ms ih =>
    obtain ⟨hm, hms⟩ := List.forall_mem_cons.mp hoccurs
    obtain ⟨hhead, htail⟩ := List.pairwise_cons.mp hpair
    have hle : i ≤ m.first := hi m List.mem_cons_self
    have hreads : m.first ≤ m.stop :=
      Nat.le_trans (Nat.le_add_right _ _) (add_leastLength_le_of_occursAs hm)
    have hend : m.stop ≤ text.toList.length := stop_le_of_occursAs hm
    have hfront := take_append_take_drop text.toList hle
    have hfront' := take_append_take_drop text.toList hreads
    have hmatch := p.toList_text_matchAs text (.ofText text) m
    have hwhole : text.toList.take i ++ ((text.toList.drop i).take (m.first - i) ++
        (p.matchAs text (.ofText text) m).text.toList ++ text.toList.drop m.stop) =
          text.toList.take i ++ text.toList.drop i := by
      rw [← List.append_assoc, ← List.append_assoc, hfront, hmatch, hfront',
        List.take_append_drop, List.take_append_drop]
    rw [List.map_cons, ← List.append_cancel_left hwhole]
    refine .found (o := m.outcome) ?_ ?_ ?_ ?_
    · rw [hfront, hmatch, hfront', List.take_append_drop, List.length_take_of_le hm.1]
      exact hm
    · rw [hfront, hmatch, hfront', List.length_take_of_le hend]
      rfl
    · rw [hfront]
      exact p.line_matchAs text m
    · rw [hfront, hmatch, hfront']
      exact ih hms htail hhead

/-- Whatever the number of lines that a match may span, the matches are laid out in the text. -/
theorem laidOut_search (p : Pattern) (text : String) (maxLines : Nat) :
    p.LaidOut [] text.toList (p.search text (.ofText text) maxLines) := by
  rw [search_eq]
  refine laidOut_of_pairwise (i := 0) ?_ ((pairwise_taken p text.toList).filter _)
    fun m _ => Nat.zero_le _
  exact fun m hm => occursAs_of_mem_taken (List.mem_filter.mp hm).1

/-- Of the matches that may span more lines, those are kept that span few enough. -/
theorem search_eq_filter (p : Pattern) (text : String) (lines : LineIndex) {n n' : Nat}
    (h : n ≤ n') : p.search text lines n =
      (p.search text lines n').filter fun m => m.text.toList.count '\n' < n := by
  unfold search
  rw [List.filter_filter]
  apply List.filter_congr
  intro m _
  rw [lineSpan, Bool.eq_iff_iff, Bool.and_eq_true, decide_eq_true_iff, decide_eq_true_iff,
    decide_eq_true_iff]
  omega

/-- An occurrence that reads something is a match of the search or starts inside one, if a match may
span as many lines as there are. -/
theorem exists_match_of_occursAs {text : String} {m : Occurrence} (h : p.OccursAs text.toList m)
    (hreads : m.first < m.stop) {n : Nat} (hn : text.toList.count '\n' < n) :
    ∃ m', (m' = m ∨ m.StartsInside m') ∧
      p.matchAs text (.ofText text) m' ∈ p.search text (.ofText text) n := by
  have hkept : ∀ m' ∈ p.taken text.toList,
      p.matchAs text (.ofText text) m' ∈ p.search text (.ofText text) n := by
    intro m' hm'
    rw [search_eq]
    refine List.mem_map_of_mem (List.mem_filter.mpr ⟨hm', ?_⟩)
    have hcount := ((List.take_sublist (m'.stop - m'.first) _).trans
      (List.drop_sublist m'.first text.toList)).count_le '\n'
    rw [decide_eq_true_iff, Occurrence.lineSpan]
    omega
  rcases mem_taken_or_covered h hreads with hm | ⟨m', hm', hinside⟩
  · exact ⟨m, Or.inl rfl, hkept m hm⟩
  · exact ⟨m', Or.inr hinside, hkept m' hm'⟩

/-- What searches find that differ in the number of lines that a match may span. -/
structure Finds (p : Pattern) (text : String) (find : Nat → List Match) : Prop where
  laidOut : ∀ n, p.LaidOut [] text.toList (find n)
  inOrder : ∀ n, ((find n).map (·.line)).Pairwise (· ≤ ·)
  short : ∀ n, ∀ m ∈ find n, m.text.toList.count '\n' < n
  kept : ∀ n n', n ≤ n' → find n = (find n').filter fun m => m.text.toList.count '\n' < n
  complete : ∀ m, p.OccursAs text.toList m → m.first < m.stop →
    ∀ n, text.toList.count '\n' < n →
      ∃ m', (m' = m ∨ m.StartsInside m') ∧ p.matchAs text (.ofText text) m' ∈ find n

/-- A search for a pattern cuts the text into matches and gaps, whatever the pattern and the text,
and the number of lines that a match may span settles only which matches are kept. A search for a
written pattern is the search for the pattern that it describes. -/
theorem searchWritten?_finds (p : Pattern) (text : String) :
    p.Finds text (p.search text (.ofText text)) ∧
      ∀ (d : Dialect) (written : String) (ignoreCase : Bool), read? d written ignoreCase = some p →
        ∀ n, searchWritten? d written text ignoreCase n = some (p.search text (.ofText text) n) := by
  constructor
  · exact {
      laidOut := p.laidOut_search text
      inOrder := fun n => (p.laidOut_search text n).pairwise_line
      short := fun n m hm => (exists_run_of_mem_search hm).1
      kept := fun n n' hle => p.search_eq_filter text _ hle
      complete := fun m hm hreads n hn => exists_match_of_occursAs hm hreads hn }
  · intro d written ignoreCase h n
    rw [searchWritten?, h]
    rfl

/-- Empty matches beside a character of two bytes in a named group, and a match on three lines that
is kept only if three are permitted. -/
theorem searchWritten?_finds_feeds :
    ∃ p, read? .standard "(?P<mark>é)?(?-i:[[:cntrl:]--\\t]*)" true = some p ∧
      p.Finds "aÉ\n\nb" (p.search "aÉ\n\nb" (.ofText "aÉ\n\nb")) ∧
      p.search "aÉ\n\nb" (.ofText "aÉ\n\nb") 3 =
        [⟨1, "", [none]⟩, ⟨1, "É\n\n", [some "É"]⟩, ⟨3, "", [none]⟩] ∧
      p.search "aÉ\n\nb" (.ofText "aÉ\n\nb") 2 = [⟨1, "", [none]⟩, ⟨3, "", [none]⟩] := by
  have hthree : searchWritten? .standard "(?P<mark>é)?(?-i:[[:cntrl:]--\\t]*)" "aÉ\n\nb" true 3 =
      some [⟨1, "", [none]⟩, ⟨1, "É\n\n", [some "É"]⟩, ⟨3, "", [none]⟩] := by decide +kernel
  obtain ⟨p, hp, _⟩ := Option.map_eq_some_iff.mp hthree
  obtain ⟨hfinds, hwritten⟩ := searchWritten?_finds p "aÉ\n\nb"
  have hfind := Option.some.inj ((hwritten .standard _ true hp 3).symm.trans hthree)
  refine ⟨p, hp, hfinds, hfind, ?_⟩
  rw [hfinds.kept 2 3 (by decide), hfind]
  rfl

end Pattern
end ScriptAudit
