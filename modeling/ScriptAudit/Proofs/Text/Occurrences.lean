import Mathlib.Data.List.Infix
import ScriptAudit.Text.Split
import ScriptAudit.Unicode.Word

/-! # Where a word occurs in a text

Occurrences are given by the number of characters before them. A word no end of which is also its
start cannot overlap itself. Main statements: `Apart.add_length_le`, `Unbordered.add_length_le`,
`occursIn_iff`, and `followsWord_of_within`, by which a name inside a longer one follows a character
of a word.
-/
namespace ScriptAudit.Text

def occursAt (word cs : List Char) (i : Nat) : Bool := word.isPrefixOf (cs.drop i)

/-- All places at which the word occurs, from left to right. -/
def occurrences (word cs : List Char) : List Nat :=
  (List.range (cs.length + 1)).filter (occursAt word cs)

/-- Whether the place is behind a character that belongs to a word. -/
def followsWord (cs : List Char) (i : Nat) : Bool := (cs.take i).getLast?.any Unicode.isWord

theorem occursAt_cons {c : Char} {word cs : List Char} {i : Nat} :
    occursAt (c :: word) cs i = true ↔ cs[i]? = some c ∧ occursAt word cs (i + 1) = true := by
  unfold occursAt
  rw [← List.head?_drop, ← List.drop_drop]
  cases cs.drop i with
  | nil => simp
  | cons d rest =>
    rw [List.isPrefixOf_cons_cons, Bool.and_eq_true, beq_iff_eq, List.head?_cons, Option.some.injEq]
    rw [List.drop_one, List.tail_cons]
    exact and_congr_left fun _ => eq_comm

theorem occursAt_nil (cs : List Char) (i : Nat) : occursAt [] cs i = true :=
  List.isPrefixOf_nil_left

theorem occursAt_append {word other cs : List Char} {i : Nat} :
    occursAt (word ++ other) cs i = true ↔
      occursAt word cs i = true ∧ occursAt other cs (i + word.length) = true := by
  induction word generalizing i with
  | nil => simp [occursAt_nil]
  | cons c word ih =>
    rw [List.cons_append, occursAt_cons, occursAt_cons, ih, and_assoc, List.length_cons,
      Nat.add_comm word.length, ← Nat.add_assoc]

theorem occursAt_singleton {c : Char} {cs : List Char} {i : Nat} :
    occursAt [c] cs i = true ↔ cs[i]? = some c :=
  occursAt_cons.trans (and_iff_left (occursAt_nil cs (i + 1)))

theorem mem_occurrences {word cs : List Char} {i : Nat} :
    i ∈ occurrences word cs ↔ i ≤ cs.length ∧ occursAt word cs i = true := by
  rw [occurrences, List.mem_filter, List.mem_range, Nat.lt_add_one_iff]

theorem occursIn_iff {word cs : List Char} : occursIn word cs = true ↔ word <:+: cs := by
  induction cs with
  | nil => rw [occursIn, List.isEmpty_iff, List.infix_nil]
  | cons c cs ih =>
    rw [occursIn, Bool.or_eq_true, List.isPrefixOf_iff_prefix, ih, List.infix_cons_iff]

theorem count_pos_iff {word cs : List Char} : 0 < count word cs ↔ occursIn word cs = true := by
  unfold count
  induction cs with
  | nil => cases word <;> simp [countFrom, occursIn]
  | cons c cs ih =>
    rw [countFrom, occursIn, Bool.or_eq_true, ← ih]
    cases word.isPrefixOf (c :: cs) <;> simp

theorem getElem?_of_occursAt {word cs : List Char} {i : Nat} (h : occursAt word cs i = true)
    {n : Nat} (hn : n < word.length) : cs[i + n]? = word[n]? := by
  obtain ⟨rest, hrest⟩ := List.isPrefixOf_iff_prefix.mp h
  rw [← List.getElem?_drop, ← hrest, List.getElem?_append_left hn]

/-- A word that ends in no other way than it starts, so that no two places of it overlap. -/
def Unbordered (word : List Char) : Prop := ∀ n < word.length, 0 < n → ¬ word.drop n <+: word

instance (word : List Char) : Decidable (Unbordered word) :=
  inferInstanceAs (Decidable (∀ n < _, _ → _))

theorem unbordered_cons {c : Char} {word : List Char} (hc : c ∉ word) : Unbordered (c :: word) := by
  rintro (_ | n) hn hpos hstart
  · omega
  · rw [List.drop_succ_cons] at hstart
    obtain ⟨rest, hrest⟩ := hstart
    cases hdrop : word.drop n with
    | nil =>
      have hle := List.drop_eq_nil_iff.mp hdrop
      rw [List.length_cons] at hn
      omega
    | cons d tail =>
      rw [hdrop, List.cons_append] at hrest
      obtain rfl := (List.cons.inj hrest).1
      exact hc (List.mem_of_mem_drop (hdrop ▸ List.mem_cons_self))

/-- From its character `n` on, one word cannot run into the other one. -/
def Apart (n : Nat) (word other : List Char) : Prop :=
  ∀ m < word.length, n ≤ m → ¬ word.drop m <+: other ∧ ¬ other <+: word.drop m

instance (n : Nat) (word other : List Char) : Decidable (Apart n word other) :=
  inferInstanceAs (Decidable (∀ m < _, _ → _))

/-- A word ends before another one occurs that it cannot run into. -/
theorem Apart.add_length_le {n : Nat} {word other cs : List Char} (h : Apart n word other)
    {i j : Nat} (hi : occursAt word cs i = true) (hj : occursAt other cs j = true)
    (hle : i + n ≤ j) : i + word.length ≤ j := by
  apply Nat.le_of_not_lt
  intro hover
  obtain ⟨m, rfl⟩ := Nat.exists_eq_add_of_le (Nat.le_trans (Nat.le_add_right i n) hle)
  have hend : word.drop m <+: cs.drop (i + m) := by
    rw [← List.drop_drop]
    exact (List.isPrefixOf_iff_prefix.mp hi).drop m
  have hstart : other <+: cs.drop (i + m) := List.isPrefixOf_iff_prefix.mp hj
  obtain ⟨hnot, hnot'⟩ := h m (by omega) (by omega)
  exact (List.prefix_or_prefix_of_prefix hend hstart).elim hnot hnot'

theorem Unbordered.apart {word : List Char} (h : Unbordered word) : Apart 1 word word := by
  intro m hm hpos
  refine ⟨h m hm hpos, fun hprefix => ?_⟩
  have hlength := hprefix.length_le
  rw [List.length_drop] at hlength
  omega

/-- A word that does not overlap itself ends before it occurs again. -/
theorem Unbordered.add_length_le {word cs : List Char} (h : Unbordered word) {i j : Nat}
    (hi : occursAt word cs i = true) (hj : occursAt word cs j = true) (hlt : i < j) :
    i + word.length ≤ j :=
  h.apart.add_length_le hi hj hlt

theorem followsWord_of_getElem? {cs : List Char} {i : Nat} {c : Char} (h : cs[i]? = some c) :
    followsWord cs (i + 1) = Unicode.isWord c := by
  rw [followsWord, List.take_add_one, h]
  simp

/-- The word at `j` lies within the longer one at `i`. -/
def Within (long short : List Char) (i j : Nat) : Prop :=
  i ≤ j ∧ j + short.length ≤ i + long.length

instance (long short : List Char) (i j : Nat) : Decidable (Within long short i j) :=
  inferInstanceAs (Decidable (_ ∧ _))

/-- Where the short word occurs by itself and not as a part of the long one. -/
def occurrencesApart (long short cs : List Char) : List Nat :=
  (occurrences short cs).filter fun j => ∀ i ∈ occurrences long cs, ¬ Within long short i j

/-- A word behind a prefix follows the end of the prefix wherever it lies within both. -/
theorem followsWord_of_within {c last : Char} {pre word cs : List Char} {i j : Nat}
    (hpre : c ∉ pre) (hlast : c ≠ last) (hword : Unicode.isWord last = true)
    (hi : occursAt (pre ++ last :: c :: word) cs i = true)
    (hj : occursAt (c :: word) cs j = true)
    (h : Within (pre ++ last :: c :: word) (c :: word) i j) : followsWord cs j = true := by
  obtain ⟨hle, hend⟩ := h
  simp only [List.length_append, List.length_cons] at hend
  obtain ⟨n, rfl⟩ : ∃ n, j = i + n := ⟨j - i, by omega⟩
  have hfirst : cs[i + n]? = some c := getElem?_of_occursAt hj (Nat.zero_lt_succ _)
  have hsame := getElem?_of_occursAt hi (n := n) (by simp; omega)
  rw [hfirst] at hsame
  -- the first character of the short word cannot stand any earlier in the long one
  have hn : n = pre.length + 1 := by
    rcases Nat.lt_trichotomy n pre.length with hlt | heq | hgt
    · rw [List.getElem?_append_left hlt] at hsame
      exact absurd (List.mem_of_getElem? hsame.symm) hpre
    · rw [heq, List.getElem?_append_right (Nat.le_refl _), Nat.sub_self] at hsame
      exact absurd (Option.some.inj hsame) hlast
    · omega
  subst hn
  have hprev := getElem?_of_occursAt hi (n := pre.length) (by simp)
  rw [List.getElem?_append_right (Nat.le_refl _), Nat.sub_self] at hprev
  rw [← Nat.add_assoc, followsWord_of_getElem? hprev, hword]

end ScriptAudit.Text
