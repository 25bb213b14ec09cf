import Mathlib.Data.Nat.Find
import Mathlib.Order.Bounds.Defs
import ScriptAudit.Rules.Indentation

/-! # Where the indentation becomes mixed

The indentation of a line is what stands in front of its first character that is neither a tab nor
a space; a line without such a character has none. The rule goes through the lines and remembers
which of the two it has seen in an indentation, so it stops behind the shortest part of the script
in which both can be seen. Main statements: `mixed_iff`, `firstMixture_eq_some_iff` and
`mixedTabsSpaces_finds`.
-/
namespace ScriptAudit.Rules

variable {line indent : List Char} {ls ls' : List (List Char)} {c : Char} {tabs spaces : Bool}
  {n m : Nat}

/-- The line starts with these tabs and spaces, and with no more of them, and then goes on. -/
def IndentedBy (line indent : List Char) : Prop :=
  ∃ c rest, line = indent ++ c :: rest ∧ (∀ d ∈ indent, d = ' ' ∨ d = '\t') ∧ c ≠ ' ' ∧ c ≠ '\t'

/-- The indentation consists of one character, repeated once or more often. -/
def IsOnly (c : Char) (indent : List Char) : Prop := indent ≠ [] ∧ ∀ d ∈ indent, d = c

/-- There is a tab and a space in the indentation of one line, or one line is indented with tabs
only and another one with spaces only. -/
def Mixed (ls : List (List Char)) : Prop :=
  (∃ line ∈ ls, ∃ indent, IndentedBy line indent ∧ '\t' ∈ indent ∧ ' ' ∈ indent) ∨
  ((∃ line ∈ ls, ∃ indent, IndentedBy line indent ∧ IsOnly '\t' indent) ∧
    ∃ line ∈ ls, ∃ indent, IndentedBy line indent ∧ IsOnly ' ' indent)

/-- The character occurs in the indentation of some line. -/
def Uses (c : Char) (ls : List (List Char)) : Prop :=
  ∃ line ∈ ls, ∃ indent, IndentedBy line indent ∧ c ∈ indent

theorem isIndent_iff : isIndent c = true ↔ c = ' ' ∨ c = '\t' := by
  simp [isIndent]

theorem indentedBy_iff : IndentedBy line indent ↔ indentation? line = some indent := by
  unfold indentation?
  rw [Option.ite_none_left_eq_some, Option.some.injEq]
  constructor
  · rintro ⟨c, rest, rfl, hindent, hspace, htab⟩
    have hc : ¬ isIndent c = true := fun h => (isIndent_iff.mp h).elim hspace htab
    refine ⟨fun hall => hc (List.all_eq_true.mp hall c (by simp)), ?_⟩
    rw [List.takeWhile_append_of_pos fun d hd => isIndent_iff.mpr (hindent d hd),
      List.takeWhile_cons_of_neg hc, List.append_nil]
  · rintro ⟨hall, rfl⟩
    have hcut := List.takeWhile_append_dropWhile (p := isIndent) (l := line)
    have hindent : ∀ d ∈ line.takeWhile isIndent, isIndent d = true :=
      List.all_eq_true.mp List.all_takeWhile
    cases hrest : line.dropWhile isIndent with
    | nil =>
      rw [hrest, List.append_nil] at hcut
      rw [hcut] at hindent
      exact absurd (List.all_eq_true.mpr hindent) hall
    | cons c rest =>
      have hc := List.head?_dropWhile_not isIndent line
      rw [hrest] at hc hcut
      have hother (hd : c = ' ' ∨ c = '\t') : False := by simp [isIndent_iff.mpr hd] at hc
      exact ⟨c, rest, hcut.symm, fun d hd => isIndent_iff.mp (hindent d hd),
        fun h => hother (Or.inl h), fun h => hother (Or.inr h)⟩

theorem mem_getD_indentation?_iff : c ∈ (indentation? line).getD [] ↔
    ∃ indent, IndentedBy line indent ∧ c ∈ indent := by
  simp only [indentedBy_iff]
  cases indentation? line <;> simp

theorem IsOnly.mem (h : IsOnly c indent) : c ∈ indent := by
  obtain ⟨d, hd⟩ := List.exists_mem_of_ne_nil indent h.1
  exact h.2 d hd ▸ hd

theorem IndentedBy.isOnly_tab (h : IndentedBy line indent) (htab : '\t' ∈ indent)
    (hspace : ' ' ∉ indent) : IsOnly '\t' indent := by
  obtain ⟨_, _, _, hkind, _⟩ := h
  exact ⟨List.ne_nil_of_mem htab, fun d hd => (hkind d hd).resolve_left fun h => hspace (h ▸ hd)⟩

theorem IndentedBy.isOnly_space (h : IndentedBy line indent) (hspace : ' ' ∈ indent)
    (htab : '\t' ∉ indent) : IsOnly ' ' indent := by
  obtain ⟨_, _, _, hkind, _⟩ := h
  exact ⟨List.ne_nil_of_mem hspace, fun d hd => (hkind d hd).resolve_right fun h => htab (h ▸ hd)⟩

/-- What matters is that both characters occur; the lines in which they do may be the same. -/
theorem mixed_iff : Mixed ls ↔ Uses '\t' ls ∧ Uses ' ' ls := by
  constructor
  · rintro (⟨line, hline, indent, hindent, htab, hspace⟩ |
      ⟨⟨line, hline, indent, hindent, htabs⟩, line', hline', indent', hindent', hspaces⟩)
    · exact ⟨⟨line, hline, indent, hindent, htab⟩, line, hline, indent, hindent, hspace⟩
    · exact ⟨⟨line, hline, indent, hindent, htabs.mem⟩, line', hline', indent', hindent',
        hspaces.mem⟩
  · rintro ⟨⟨line, hline, indent, hindent, htab⟩, line', hline', indent', hindent', hspace⟩
    by_cases hboth : ' ' ∈ indent
    · exact Or.inl ⟨line, hline, indent, hindent, htab, hboth⟩
    by_cases hboth' : '\t' ∈ indent'
    · exact Or.inl ⟨line', hline', indent', hindent', hboth', hspace⟩
    · exact Or.inr ⟨⟨line, hline, indent, hindent, hindent.isOnly_tab htab hboth⟩,
        line', hline', indent', hindent', hindent'.isOnly_space hspace hboth'⟩

theorem Uses.mono (h : Uses c ls) (hsub : ls ⊆ ls') : Uses c ls' := by
  obtain ⟨line, hline, hindent⟩ := h
  exact ⟨line, hsub hline, hindent⟩

theorem Mixed.mono (h : Mixed ls) (hsub : ls ⊆ ls') : Mixed ls' := by
  rw [mixed_iff] at h ⊢
  exact ⟨h.1.mono hsub, h.2.mono hsub⟩

theorem not_mixed_nil : ¬ Mixed [] := by
  simp [mixed_iff, Uses]

/-- The lines are mixed for one who has seen tabs or spaces in lines before them. -/
def MixedBehind (tabs spaces : Bool) (ls : List (List Char)) : Prop :=
  (tabs = true ∨ Uses '\t' ls) ∧ (spaces = true ∨ Uses ' ' ls)

theorem mixedBehind_false_iff : MixedBehind false false ls ↔ Mixed ls := by
  simp [MixedBehind, mixed_iff]

theorem mixedBehind_nil_iff : MixedBehind tabs spaces [] ↔ (tabs && spaces) = true := by
  simp [MixedBehind, Uses]

theorem uses_cons_iff {rest : List (List Char)} : Uses c (line :: rest) ↔
    ((indentation? line).getD []).contains c = true ∨ Uses c rest := by
  rw [List.contains_iff_mem, mem_getD_indentation?_iff]
  simp only [Uses, List.mem_cons, or_and_right, exists_or, exists_eq_left]

/-- A line that has been read counts by what it adds to what has been seen. -/
theorem mixedBehind_cons_iff {rest : List (List Char)} : MixedBehind tabs spaces (line :: rest) ↔
    MixedBehind (tabs || ((indentation? line).getD []).contains '\t')
      (spaces || ((indentation? line).getD []).contains ' ') rest := by
  simp only [MixedBehind, uses_cons_iff, Bool.or_eq_true, or_assoc]

/-- The rule stops behind the first line with which both characters have been seen. -/
theorem firstMixture_eq_some_iff (h : (tabs && spaces) = false) :
    firstMixture tabs spaces n ls = some m ↔
      ∃ k, m = n + k ∧ MixedBehind tabs spaces (ls.take (k + 1)) ∧
        ¬ MixedBehind tabs spaces (ls.take k) := by
  induction ls generalizing tabs spaces n with
  | nil => simp [firstMixture]
  | cons line rest ih =>
    have hnone : ¬ MixedBehind tabs spaces [] := by rw [mixedBehind_nil_iff, h]; decide
    rw [firstMixture, ← Nat.or_exists_add_one]
    simp only [List.take_succ_cons, List.take_zero, mixedBehind_cons_iff]
    generalize (tabs || ((indentation? line).getD []).contains '\t') = tabs'
    generalize (spaces || ((indentation? line).getD []).contains ' ') = spaces'
    cases hboth : tabs' && spaces' with
    | true =>
      have hmixed (ls : List (List Char)) : MixedBehind tabs' spaces' ls := by
        rw [Bool.and_eq_true] at hboth
        exact ⟨Or.inl hboth.1, Or.inl hboth.2⟩
      simp [hmixed, hnone, eq_comm]
    | false =>
      have hnone' : ¬ MixedBehind tabs' spaces' [] := by rw [mixedBehind_nil_iff, hboth]; decide
      have hrest := ih (n := n + 1) hboth
      simpa [hnone', Nat.add_assoc, Nat.add_comm 1] using hrest

/-- The number of the line is that of the lines up to it. -/
theorem firstMixture_one_eq_some_iff :
    firstMixture false false 1 ls = some n ↔ IsLeast {n | Mixed (ls.take n)} n := by
  rw [firstMixture_eq_some_iff (Bool.and_false _)]
  simp only [mixedBehind_false_iff]
  constructor
  · rintro ⟨k, rfl, hmixed, hnot⟩
    rw [Nat.add_comm 1 k]
    refine ⟨hmixed, fun j hj => Nat.lt_of_not_le fun hle => hnot ?_⟩
    exact Mixed.mono hj (List.take_subset_take_left ls hle)
  · rintro ⟨hmixed, hleast⟩
    cases n with
    | zero => exact absurd hmixed not_mixed_nil
    | succ k => exact ⟨k, Nat.add_comm k 1, hmixed, fun h => Nat.not_succ_le_self k (hleast h)⟩

theorem firstMixture_one_eq_none_iff : firstMixture false false 1 ls = none ↔ ¬ Mixed ls := by
  constructor
  · intro hnone hmixed
    classical
    have hexists : ∃ n, Mixed (ls.take n) := ⟨ls.length, by rwa [List.take_length]⟩
    have hleast : IsLeast {n | Mixed (ls.take n)} (Nat.find hexists) :=
      ⟨Nat.find_spec hexists, fun _ => Nat.find_min' hexists⟩
    rw [firstMixture_one_eq_some_iff.mpr hleast] at hnone
    cases hnone
  · intro hnot
    cases hfound : firstMixture false false 1 ls with
    | none => rfl
    | some n =>
      have hmixed : Mixed (ls.take n) := (firstMixture_one_eq_some_iff.mp hfound).1
      exact absurd (hmixed.mono (List.take_subset n ls)) hnot

/-- The rule reports nothing if the lines are not mixed, and otherwise the number of the first line
with which they are. -/
theorem mixedTabsSpaces_finds (s : Source) : ∃ found : Option Nat,
    mixedTabsSpaces s = .ok (found.toList.map Hit.at) ∧
    (found = none ↔ ¬ Mixed (Text.lines s.chars)) ∧
    ∀ n, found = some n ↔ IsLeast {n | Mixed ((Text.lines s.chars).take n)} n :=
  ⟨_, rfl, firstMixture_one_eq_none_iff, fun _ => firstMixture_one_eq_some_iff⟩

-- the blank line does not count, nor does the line end that is written with two characters
example : mixedTabsSpaces ⟨Path.ofString "a.py", "if x:\r\n    a()\r\n\t\r\n    b()\r\n\tc()"⟩ =
    .ok [Hit.at 5] := by decide

end ScriptAudit.Rules
