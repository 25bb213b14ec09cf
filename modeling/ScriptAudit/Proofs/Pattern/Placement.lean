import ScriptAudit.Proofs.Pattern.LineEnds

/-! # Texts inside other texts

A pattern that does not ask for the start or the end of the text reads a text inside another one as
it reads the text alone, if what stands before it ends with a line feed, and what stands behind it
starts with a line feed that the pattern cannot read. Main statements: `mimics_run`,
`taken_append_newline` and `taken_newline_cons`.
-/
namespace ScriptAudit

open Cursor (ofIndex)

/-- The assertion is about the characters on both sides of a place only, and the ends of the text
count as ends of lines. -/
def Assertion.isLocal : Assertion → Bool
  | textStart | textEnd => false
  | lineStart returns | lineEnd returns => !returns
  | word _ _ => true

def Pattern.isLocal : Pattern → Bool
  | empty | set _ => true
  | check a => a.isLocal
  | seq p q | alt p q => p.isLocal && q.isLocal
  | plus _ p | group _ p => p.isLocal

/-- Where a text may stand: behind a line feed or nothing, and before a line feed or nothing. -/
structure Framed (before behind : List Char) : Prop where
  before : ∀ c, before.getLast? = some c → c = '\n'
  behind : ∀ c, behind.head? = some c → c = '\n'

namespace Cursor

variable {before text behind : List Char} {i j : Nat}

/-- The place of a text inside another one. -/
def inside (before text behind : List Char) (i : Nat) : Cursor :=
  ofIndex (before ++ text ++ behind) (before.length + i)

@[simp] theorem index_inside (before text behind : List Char) (i : Nat) :
    (inside before text behind i).index = before.length + i := rfl

theorem rest_inside (hi : i ≤ text.length) :
    (inside before text behind i).rest = text.drop i ++ behind := by
  rw [inside, rest_ofIndex, List.append_assoc, List.drop_length_add_append,
    List.drop_append_of_le_length hi]

theorem last_inside (hi : i ≤ text.length) :
    (inside before text behind i).last = (text.take i).getLast?.or before.getLast? := by
  rw [inside, last_ofIndex, List.append_assoc, List.take_length_add_append,
    List.take_append_of_le_length hi, List.getLast?_append]

theorem advance_inside {c : Char} {rest : List Char} (hi : i < text.length)
    (h : text.drop i = c :: rest) :
    (inside before text behind i).advance c (rest ++ behind) =
      inside before text behind (i + 1) := by
  apply advance_ofIndex
  have hrest : (inside before text behind i).rest = text.drop i ++ behind :=
    rest_inside (Nat.le_of_lt hi)
  rw [h] at hrest
  exact hrest

end Cursor

open Cursor (inside)

theorem Assertion.holds_inside {a : Assertion} (ha : a.isLocal = true)
    {before text behind : List Char} (h : Framed before behind) {i : Nat} (hi : i ≤ text.length) :
    a.holds (inside before text behind i) = a.holds (ofIndex text i) := by
  have hlast (test : Option Char → Bool) (htest : test (some '\n') = test none) :
      test (inside before text behind i).last = test (ofIndex text i).last := by
    rw [Cursor.last_inside hi, Cursor.last_ofIndex]
    cases (text.take i).getLast? with
    | some c => rfl
    | none =>
      rw [Option.none_or]
      cases hbefore : before.getLast? with
      | none => rfl
      | some c => rw [h.before c hbefore, htest]
  have hnext (test : Option Char → Bool) (htest : test (some '\n') = test none) :
      test (inside before text behind i).rest.head? = test (ofIndex text i).rest.head? := by
    rw [Cursor.rest_inside hi, Cursor.rest_ofIndex, List.head?_append]
    cases (text.drop i).head? with
    | some c => rfl
    | none =>
      rw [Option.none_or]
      cases hbehind : behind.head? with
      | none => rfl
      | some c => rw [h.behind c hbehind, htest]
  have hword (ascii : Bool) : Option.any (isWordIn ascii) (some '\n') =
      Option.any (isWordIn ascii) none := by
    revert ascii
    decide
  cases a with
  | textStart | textEnd => cases ha
  | lineStart returns =>
    simp only [isLocal, Bool.not_eq_true'] at ha
    simp only [holds, ha, Bool.false_and, Bool.or_false]
    exact hlast (Option.all (· == '\n')) rfl
  | lineEnd returns =>
    simp only [isLocal, Bool.not_eq_true'] at ha
    simp only [holds, ha, Bool.false_eq_true, if_false]
    exact hnext (Option.all (· == '\n')) rfl
  | word edge ascii => rw [holds, holds, hlast _ (hword ascii), hnext _ (hword ascii)]

namespace Pattern

variable {before text behind : List Char} {k k' l l' : Continuation} {p : Pattern} {greedy : Bool}

/-- One way of going on has the outcomes inside the other text that the other way has in the text
alone. -/
def Mimics (before text behind : List Char) (k k' : Continuation) : Prop :=
  ∀ i ≤ text.length, k' (inside before text behind i) =
    (k (ofIndex text i)).map (Outcome.reindex (before.length + ·))

theorem Mimics.ite (hl : Mimics before text behind l l') (hk : Mimics before text behind k k')
    (i : Nat) :
    Mimics before text behind (fun t => if (ofIndex text i).index < t.index then l t else k t)
      (fun t => if (inside before text behind i).index < t.index then l' t else k' t) := by
  intro j hj
  have hiff : (inside before text behind i).index < (inside before text behind j).index ↔
      (ofIndex text i).index < (ofIndex text j).index := Nat.add_lt_add_iff_left
  dsimp only
  by_cases h : (ofIndex text i).index < (ofIndex text j).index
  · rw [if_pos h, if_pos (hiff.mpr h), hl j hj]
  · rw [if_neg h, if_neg (mt hiff.mp h), hk j hj]

theorem Mimics.closing (hk : Mimics before text behind k k') (n : Nat) :
    Mimics before text behind (fun t => (k t).map (·.passing (.closed n t.index)))
      (fun t => (k' t).map (·.passing (.closed n t.index))) := by
  intro j hj
  dsimp only
  rw [hk j hj, Option.map_map, Option.map_map]
  rfl

/-- The pattern's run in the other text, for every way of going on. -/
def MimicsRun (before text behind : List Char) (p : Pattern) : Prop :=
  ∀ k k', Mimics before text behind k k' → Mimics before text behind (p.run k) (p.run k')

theorem mimics_again (hrun : MimicsRun before text behind p) (hk : Mimics before text behind k k')
    (n : Nat) :
    Mimics before text behind (again greedy p.run k n) (again greedy p.run k' n) := by
  induction n with
  | zero => exact hk
  | succ n ih =>
    intro i hi
    have hnone : Mimics before text behind (fun _ => none) (fun _ => none) := fun _ _ => rfl
    rw [again, again, map_prefer, hk i hi, hrun _ _ (ih.ite hnone i) i hi]

theorem mimics_rounds (hrun : MimicsRun before text behind p)
    (hk : Mimics before text behind k k') :
    Mimics before text behind (rounds greedy p k) (rounds greedy p k') := by
  intro i hi
  -- one bound that is enough for both texts
  have hle : (ofIndex text i).rest.length ≤ (inside before text behind i).rest.length := by
    rw [Cursor.rest_inside hi, List.length_append]
    exact Nat.le_add_right _ _
  rw [← again_eq_rounds greedy p k _ hle, ← again_eq_rounds greedy p k' _ (Nat.le_refl _)]
  exact mimics_again hrun hk _ i hi

/-- Whether the pattern stops at a line feed, or there is no text behind where it could go on. -/
def StaysInside (p : Pattern) (behind : List Char) : Prop := behind = [] ∨ p.admits '\n' = false

theorem StaysInside.of_or {q r : Pattern}
    (hadmits : p.admits '\n' = (q.admits '\n' || r.admits '\n')) (h : p.StaysInside behind) :
    q.StaysInside behind ∧ r.StaysInside behind := by
  rcases h with h | h
  · exact ⟨Or.inl h, Or.inl h⟩
  · rw [hadmits] at h
    obtain ⟨hq, hr⟩ := Bool.or_eq_false_iff.mp h
    exact ⟨Or.inr hq, Or.inr hr⟩

theorem mimics_set {cs : CharSet} (h : Framed before behind)
    (hstays : (set cs).StaysInside behind) : MimicsRun before text behind (set cs) := by
  intro k k' hk i hi
  have hrest : (inside before text behind i).rest = text.drop i ++ behind := Cursor.rest_inside hi
  rw [run, run, Cursor.rest_ofIndex, hrest]
  cases hdrop : text.drop i with
  | nil =>
    rcases hstays with rfl | hfeed
    · rfl
    · cases behind with
      | nil => rfl
      | cons c rest =>
        have hcontains : cs.contains c = false := by
          rw [h.behind c rfl]
          exact hfeed
        simp [hcontains]
  | cons c rest =>
    have hlt : i < text.length := by
      apply Nat.lt_of_not_le
      intro hle
      rw [List.drop_eq_nil_of_le hle] at hdrop
      cases hdrop
    simp only [List.cons_append, Cursor.advance_inside hlt hdrop, Cursor.advance_ofIndex hdrop]
    split
    · exact hk (i + 1) hlt
    · rfl

theorem mimics_run (p : Pattern) (hp : p.isLocal = true) (h : Framed before behind)
    (hstays : p.StaysInside behind) : MimicsRun before text behind p := by
  induction p with
  | empty => exact fun k k' hk => hk
  | set cs => exact mimics_set h hstays
  | check a =>
    intro k k' hk i hi
    rw [run, run, Assertion.holds_inside hp h hi]
    split
    · exact hk i hi
    · rfl
  | seq p q ihp ihq =>
    intro k k' hk
    obtain ⟨hp, hq⟩ := Bool.and_eq_true_iff.mp hp
    obtain ⟨hstays, hstays'⟩ := hstays.of_or rfl
    exact ihp hp hstays _ _ (ihq hq hstays' k k' hk)
  | alt p q ihp ihq =>
    intro k k' hk i hi
    obtain ⟨hp, hq⟩ := Bool.and_eq_true_iff.mp hp
    obtain ⟨hstays, hstays'⟩ := hstays.of_or rfl
    rw [run, run, map_orElse, ihp hp hstays k k' hk i hi, ihq hq hstays' k k' hk i hi]
  | plus greedy p ihp =>
    intro k k' hk i hi
    rw [run_plus, run_plus]
    have hrounds : Mimics before text behind (rounds greedy p k) (rounds greedy p k') :=
      mimics_rounds (ihp hp hstays) hk
    exact ihp hp hstays _ _ (hrounds.ite hk i) i hi
  | group n p ihp =>
    intro k k' hk i hi
    rw [run, run, ihp hp hstays _ _ (hk.closing n) i hi, Option.map_map, Option.map_map]
    rfl

end Pattern

namespace Occurrence

theorem reindex_id (m : Occurrence) : m.reindex id = m := by
  have hmark : Mark.reindex id = id := by
    funext mark
    cases mark <;> rfl
  obtain ⟨first, stop, marks⟩ := m
  simp [reindex, Outcome.reindex, hmark]

end Occurrence

namespace Pattern

variable {before text behind line rest : List Char} {p : Pattern}

/-- The outcome at a place, as a search has it. -/
def outcomeAt (p : Pattern) (s : Cursor) : Cursor × Option Outcome := (s, p.run Cursor.finish s)

theorem run_inside (hp : p.isLocal = true) (h : Framed before behind)
    (hstays : p.StaysInside behind) {i : Nat} (hi : i ≤ text.length) :
    p.run Cursor.finish (inside before text behind i) =
      (p.run Cursor.finish (ofIndex text i)).map (Outcome.reindex (before.length + ·)) :=
  mimics_run p hp h hstays _ _ (fun _ _ => rfl) i hi

/-- What is read inside the other text lies between its two ends. -/
theorem stop_of_outcomeAt_inside (hp : p.isLocal = true) (h : Framed before behind)
    (hstays : p.StaysInside behind) {i : Nat} (hi : i < text.length + 1) {s : Cursor} {o : Outcome}
    (ho : p.outcomeAt (inside before text behind i) = (s, some o)) :
    s.index = before.length + i ∧ before.length + i ≤ o.stop ∧
      o.stop ≤ before.length + text.length := by
  obtain ⟨rfl, hrun⟩ := Prod.mk.inj ho
  have hi := Nat.le_of_lt_succ hi
  rw [run_inside hp h hstays hi] at hrun
  obtain ⟨r, hr, rfl⟩ := Option.map_eq_some_iff.mp hrun
  have hoccurs : p.OccursAs text ⟨i, r⟩ := ⟨hi, hr⟩
  have hle := add_leastLength_le_of_occursAs hoccurs
  have hstop := stop_le_of_occursAs hoccurs
  simp only [Occurrence.stop] at hle hstop
  refine ⟨rfl, Nat.add_le_add_left (by omega) _, Nat.add_le_add_left hstop _⟩

/-- Of the places inside the other text a search takes those that it takes of the text alone. -/
theorem takeFrom_inside (hp : p.isLocal = true) (h : Framed before behind)
    (hstays : p.StaysInside behind) (text : List Char) :
    (takeFrom none ((List.range (text.length + 1)).map fun i =>
        p.outcomeAt (inside before text behind i))).map (fun m => Occurrence.mk m.1.index m.2) =
      (p.taken text).map (Occurrence.reindex (before.length + ·)) := by
  have houtcomes : (List.range (text.length + 1)).map (fun i =>
        p.outcomeAt (inside before text behind i)) =
      (p.outcomes text).map fun b => (inside before text behind b.1.index,
        b.2.map (Outcome.reindex (before.length + ·))) := by
    rw [outcomes_eq_map_range, List.map_map]
    apply List.map_congr_left
    intro i hi
    rw [outcomeAt, run_inside hp h hstays (Nat.le_of_lt_succ (List.mem_range.mp hi))]
    rfl
  have hmono : StrictMono (before.length + ·) := fun _ _ hlt => Nat.add_lt_add_left hlt _
  have htake := takeFrom_reindex hmono (fun s => inside before text behind s.index)
    (fun _ => rfl) (p.outcomes text) none
  rw [houtcomes]
  rw [Option.map_none] at htake
  rw [htake, taken, takeMatches_eq, List.map_map, List.map_map]
  rfl

/-- The places of a text up to a line feed, and those behind it. -/
theorem outcomes_append_newline (p : Pattern) (line rest : List Char) :
    p.outcomes (line ++ '\n' :: rest) =
      ((List.range (line.length + 1)).map fun i => p.outcomeAt (inside [] line ('\n' :: rest) i)) ++
        (List.range (rest.length + 1)).map fun i =>
          p.outcomeAt (inside (line ++ ['\n']) rest [] i) := by
  have hlength : (line ++ '\n' :: rest).length + 1 = line.length + 1 + (rest.length + 1) := by
    rw [List.length_append, List.length_cons]
    omega
  rw [outcomes_eq_map_range, hlength, List.range_add, List.map_append, List.map_map]
  congr 1
  · apply List.map_congr_left
    intro i _
    rw [outcomeAt, inside, List.nil_append, List.length_nil, Nat.zero_add]
  · apply List.map_congr_left
    intro i _
    rw [Function.comp_apply, outcomeAt, inside, List.append_nil, List.append_assoc,
      List.singleton_append, List.length_append, List.length_singleton]

theorem framed_nil_newline (rest : List Char) : Framed [] ('\n' :: rest) where
  before _ hc := by cases hc
  behind _ hc := (Option.some.inj hc).symm

theorem framed_newline_nil (line : List Char) : Framed (line ++ ['\n']) [] where
  before _ hc := by
    rw [List.getLast?_concat] at hc
    exact (Option.some.inj hc).symm
  behind _ hc := by cases hc

/-- What is taken behind a line feed, after what is taken up to it. -/
theorem takeFrom_behind_newline (hp : p.isLocal = true) (line rest : List Char) :
    (takeFrom none ((List.range (rest.length + 1)).map fun i =>
        p.outcomeAt (inside (line ++ ['\n']) rest [] i))).map
          (fun m => Occurrence.mk m.1.index m.2) =
      (p.taken rest).map (Occurrence.reindex (line.length + 1 + ·)) := by
  rw [takeFrom_inside hp (framed_newline_nil line) (Or.inl rfl) rest, List.length_append,
    List.length_singleton]

/-- An outcome at a place that stands on a line stops on this line, and so before any outcome
behind it. -/
theorem taken_append_newline (hp : p.isLocal = true) (hfeed : p.admits '\n' = false)
    (line rest : List Char) : p.taken (line ++ '\n' :: rest) =
      p.taken line ++ (p.taken rest).map (Occurrence.reindex (line.length + 1 + ·)) := by
  have hline := takeFrom_inside hp (framed_nil_newline rest) (Or.inr hfeed) line
  have hid : (fun n => ([] : List Char).length + n) = id := by
    funext n
    exact Nat.zero_add n
  have hsame : (p.taken line).map (Occurrence.reindex id) = p.taken line := by
    rw [List.map_congr_left fun m _ => m.reindex_id, List.map_id']
  rw [taken, takeMatches_eq, outcomes_append_newline, takeFrom_append, List.map_append,
    takeFrom_behind_newline hp, hline, hid, hsame]
  · exact fun _ _ _ => rfl
  · intro s o hs t r ht
    obtain ⟨i, hi, hs⟩ := List.mem_map.mp hs
    obtain ⟨j, hj, ht⟩ := List.mem_map.mp ht
    obtain ⟨_, _, hstop⟩ := stop_of_outcomeAt_inside hp (framed_nil_newline rest) (Or.inr hfeed)
      (List.mem_range.mp hi) hs
    obtain ⟨hindex, hle, _⟩ := stop_of_outcomeAt_inside hp (framed_newline_nil line) (Or.inl rfl)
      (List.mem_range.mp hj) ht
    rw [List.length_append, List.length_singleton] at hindex hle
    rw [List.length_nil, Nat.zero_add] at hstop
    exact follows_some_iff.mpr ⟨by omega, by omega⟩

theorem taken_newline_cons (hp : p.isLocal = true) (hrefuses : p.refuses = true)
    (rest : List Char) : p.taken ('\n' :: rest) =
      (p.taken rest).map (Occurrence.reindex (1 + ·)) := by
  have houtcomes := p.outcomes_append_newline [] rest
  have hfirst : p.outcomeAt (inside [] [] ('\n' :: rest) 0) =
      (inside [] [] ('\n' :: rest) 0, none) := by
    rw [outcomeAt, shuns_run hrefuses]
    rfl
  have hbehind := takeFrom_behind_newline hp [] rest
  rw [List.length_nil, Nat.zero_add] at hbehind houtcomes
  rw [List.nil_append, List.range_one, List.map_singleton, hfirst] at houtcomes
  rw [taken, takeMatches_eq, houtcomes, ← hbehind]
  rfl

end Pattern

namespace Match

/-- The match, found as many lines further down. -/
def below (k : Nat) (m : Match) : Match := { m with line := m.line + k }

end Match

namespace Occurrence

theorem lineSpan_reindex (before text : List Char) (m : Occurrence) :
    (m.reindex (before.length + ·)).lineSpan (before ++ text) = m.lineSpan text :=
  congrArg (fun piece : List Char => piece.count '\n' + 1)
    (Text.slice_length_add before text m.first m.stop)

theorem lineSpan_append_of_le {line : List Char} {m : Occurrence} (h : m.stop ≤ line.length)
    (behind : List Char) : m.lineSpan (line ++ behind) = m.lineSpan line :=
  congrArg (fun piece : List Char => piece.count '\n' + 1) (Text.slice_append_of_le h behind)

end Occurrence

namespace Pattern

variable {p : Pattern} {text whole line : String} {m : Occurrence}

theorem matchAs_reindex {before : List Char} (hwhole : whole.toList = before ++ text.toList)
    (h : p.OccursAs text.toList m) :
    p.matchAs whole (.ofText whole) (m.reindex (before.length + ·)) =
      (p.matchAs text (.ofText text) m).below (before.count '\n') := by
  have hmono : StrictMono (before.length + ·) := fun _ _ hlt => Nat.add_lt_add_left hlt _
  have hm := first_le_index_of_occursAs h
  have hgroup (n : Nat) : ((m.reindex (before.length + ·)).outcome.group (n + 1)).map (fun span =>
        String.ofList (Text.slice whole.toList span.1 span.2)) =
      (m.outcome.group (n + 1)).map fun span =>
        String.ofList (Text.slice text.toList span.1 span.2) := by
    rw [Occurrence.reindex, Outcome.group_reindex, hwhole]
    cases m.outcome.group (n + 1) with
    | none => rfl
    | some span =>
      exact congrArg (some <| String.ofList ·)
        (Text.slice_length_add before text.toList span.1 span.2)
  have hline := Text.lineOf_length_add before text.toList m.first
  have htext := Text.slice_length_add before text.toList m.first m.stop
  rw [← hwhole] at hline htext
  rw [matchAs_eq hm, matchAs_eq (le_index_reindex hmono hm), Match.below, Match.mk.injEq]
  exact ⟨hline, congrArg String.ofList htext, List.map_congr_left fun n _ => hgroup n⟩

/-- On a line that is followed by others a match is what it is on the line alone. -/
theorem matchAs_append {behind : List Char} (hwhole : whole.toList = line.toList ++ behind)
    (hp : p.groupCount = 0) (h : p.OccursAs line.toList m) :
    p.matchAs whole (.ofText whole) m = p.matchAs line (.ofText line) m := by
  have hm := first_le_index_of_occursAs h
  have hstop := stop_le_of_occursAs h
  rw [matchAs_eq hm, matchAs_eq hm, hp, hwhole, Text.lineOf_append_of_le h.1,
    Text.slice_append_of_le hstop]
  rfl

/-- What is kept of the occurrences that are taken. -/
def keptIn (p : Pattern) (text : String) (maxLines : Nat) (ms : List Occurrence) : List Match :=
  (ms.filter fun m => m.lineSpan text.toList ≤ maxLines).map (p.matchAs text (.ofText text))

theorem keptIn_reindex {before : List Char} (hwhole : whole.toList = before ++ text.toList)
    (maxLines : Nat) :
    p.keptIn whole maxLines ((p.taken text.toList).map (Occurrence.reindex (before.length + ·))) =
      (p.search text (.ofText text) maxLines).map (Match.below (before.count '\n')) := by
  have hspan : ((fun m : Occurrence => decide (m.lineSpan whole.toList ≤ maxLines)) ∘
      Occurrence.reindex (before.length + ·)) =
        fun m => decide (m.lineSpan text.toList ≤ maxLines) := by
    funext m
    rw [Function.comp_apply, hwhole, m.lineSpan_reindex]
  rw [search_eq, keptIn, List.filter_map, hspan, List.map_map, List.map_map]
  apply List.map_congr_left
  intro m hm
  exact matchAs_reindex hwhole (occursAs_of_mem_taken (List.mem_filter.mp hm).1)

theorem keptIn_append {behind : List Char} (hwhole : whole.toList = line.toList ++ behind)
    (hgroups : p.groupCount = 0) (maxLines : Nat) :
    p.keptIn whole maxLines (p.taken line.toList) = p.search line (.ofText line) maxLines := by
  have hspan : ∀ m ∈ p.taken line.toList, decide (m.lineSpan whole.toList ≤ maxLines) =
      decide (m.lineSpan line.toList ≤ maxLines) := by
    intro m hm
    rw [hwhole, Occurrence.lineSpan_append_of_le (stop_le_of_occursAs (occursAs_of_mem_taken hm))]
  rw [search_eq, keptIn, List.filter_congr hspan]
  apply List.map_congr_left
  intro m hm
  exact matchAs_append hwhole hgroups (occursAs_of_mem_taken (List.mem_filter.mp hm).1)

/-- A search finds what it finds on the first line, and then what it finds in the rest. -/
theorem search_append_newline (hp : p.isLocal = true) (hfeed : p.admits '\n' = false)
    (hgroups : p.groupCount = 0) (hline : '\n' ∉ line.toList)
    (hwhole : whole.toList = line.toList ++ '\n' :: text.toList) (maxLines : Nat) :
    p.search whole (.ofText whole) maxLines = p.search line (.ofText line) maxLines ++
      (p.search text (.ofText text) maxLines).map (Match.below 1) := by
  have hwhole' : whole.toList = line.toList ++ ['\n'] ++ text.toList := by
    rw [hwhole, List.append_assoc, List.singleton_append]
  have hsearch : p.search whole (.ofText whole) maxLines =
      p.keptIn whole maxLines (p.taken whole.toList) := search_eq p whole _ maxLines
  have hrest : p.keptIn whole maxLines
        ((p.taken text.toList).map (Occurrence.reindex (line.toList.length + 1 + ·))) =
      (p.search text (.ofText text) maxLines).map (Match.below 1) := by
    have hkept := keptIn_reindex (p := p) hwhole' maxLines
    rwa [List.length_append, List.count_append, List.count_eq_zero_of_not_mem hline] at hkept
  rw [hsearch, hwhole, taken_append_newline hp hfeed, keptIn, List.filter_append, List.map_append,
    ← keptIn_append hwhole hgroups, ← hrest]
  rfl

/-- A line feed in front of a text moves the matches one line down. -/
theorem search_newline_cons (hp : p.isLocal = true) (hrefuses : p.refuses = true)
    (hwhole : whole.toList = '\n' :: text.toList) (maxLines : Nat) :
    p.search whole (.ofText whole) maxLines =
      (p.search text (.ofText text) maxLines).map (Match.below 1) := by
  have hsearch : p.search whole (.ofText whole) maxLines =
      p.keptIn whole maxLines (p.taken whole.toList) := search_eq p whole _ maxLines
  have hwhole' : whole.toList = ['\n'] ++ text.toList := hwhole
  have hrest := keptIn_reindex (p := p) hwhole' maxLines
  rw [hsearch, hwhole, taken_newline_cons hp hrefuses]
  exact hrest

end Pattern

end ScriptAudit
