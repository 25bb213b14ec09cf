import ScriptAudit.Proofs.Pattern.Placement
import ScriptAudit.Proofs.Rules.LineEnds

/-! # Blank lines at the start

Line feeds in front of a script move its hits as many lines down. The rules that miss something in
the script as a whole go on reporting the first line, and a first line for the shell is no longer
the first one. One line feed is put in front at a time. Main statement: `Rule.detect_below`.
-/
namespace ScriptAudit
open Pattern Rules

/-- The hit, as many lines further down. -/
def Hit.below (k : Nat) (h : Hit) : Hit := { h with line := h.line + k }

/-- The rules that report that something is nowhere in the script, always on its first line. -/
def RuleName.unlocated : List RuleName :=
  [missingEmail, missingSpdxCopyright, missingSpdxLicense]

namespace Source

/-- The script with as many blank lines in front of it. -/
def below (k : Nat) (s : Source) : Source :=
  ⟨s.path, String.ofList (List.replicate k '\n' ++ s.chars)⟩

variable {p : Pattern} {needle : String}

theorem chars_below (k : Nat) (s : Source) : (s.below k).chars = List.replicate k '\n' ++ s.chars :=
  String.toList_ofList

@[simp] theorem below_zero (s : Source) : s.below 0 = s := by
  rw [below, List.replicate_zero, List.nil_append, chars, String.ofList_toList]

theorem below_succ (k : Nat) (s : Source) : s.below (k + 1) = (s.below k).below 1 := by
  rw [below, below, chars_below, List.replicate_succ]
  rfl

theorem search_below_one (hp : p.isLocal = true) (hrefuses : p.refuses = true) (s : Source)
    (maxLines : Nat) :
    (s.below 1).search p maxLines = (s.search p maxLines).map (Match.below 1) :=
  search_newline_cons hp hrefuses (s.chars_below 1) maxLines

/-- What one blank line does not change is not changed by more of them. -/
theorem eq_of_below_one {α : Type} {f : Source → α} (h : ∀ s : Source, f (s.below 1) = f s)
    (k : Nat) (s : Source) : f (s.below k) = f s := by
  induction k with
  | zero => rw [s.below_zero]
  | succ k ih => rw [s.below_succ, h, ih]

theorem isFoundIn_below (hp : p.isLocal = true) (hrefuses : p.refuses = true) (k : Nat)
    (s : Source) : p.isFoundIn (s.below k).text = p.isFoundIn s.text := by
  refine eq_of_below_one (f := fun s => p.isFoundIn s.text) (fun s => ?_) k s
  have htext : (s.below 1).text.toList = '\n' :: s.text.toList := s.chars_below 1
  rw [isFoundIn_eq, isFoundIn_eq, htext, taken_newline_cons hp hrefuses, List.isEmpty_map]

theorem mentions_below (hneedle : needle.toList ≠ []) (hfeed : '\n' ∉ needle.toList) (k : Nat)
    (s : Source) : (s.below k).mentions needle = s.mentions needle := by
  refine eq_of_below_one (f := fun s => s.mentions needle) (fun s => ?_) k s
  have hempty : Text.occursIn needle.toList [] = false := List.isEmpty_eq_false_iff.mpr hneedle
  rw [mentions, chars_below, List.replicate_one, List.singleton_append,
    ← List.nil_append ('\n' :: s.chars), Text.occursIn_append_cons hfeed, hempty, Bool.false_or]
  rfl

end Source

theorem Pattern.IsSearched.isLocal {p : Pattern} (h : p.IsSearched) : p.isLocal = true := by
  cases h <;> decide

theorem Pattern.IsSearched.refuses {p : Pattern} (h : p.IsSearched) : p.refuses = true :=
  (Bool.and_eq_true_iff.mp h.portable).2

/-- One blank line more in front of the script. -/
def Change.blankLine : Change where
  source := Source.below 1
  found := Match.below 1
  hit := Hit.below 1
  hit_at _ := rfl
  hit_message _ := rfl
  hit_link _ := rfl

namespace Rules

variable {d : Detector}

theorem detect_below_of_carries (h : Change.blankLine.Carries d) (k : Nat) (s : Source) :
    d (s.below k) = List.map (Hit.below k) <$> d s := by
  induction k with
  | zero =>
    have hzero : List.map (Hit.below 0) = id := List.map_id_fun
    rw [s.below_zero, hzero, id_map]
  | succ k ih =>
    have hone : d ((s.below k).below 1) = List.map (Hit.below 1) <$> d (s.below k) := h (s.below k)
    rw [s.below_succ, hone, ih]
    cases d s with
    | error fault => rfl
    | ok hits => exact congrArg Except.ok List.map_map

theorem missingEmail_below (k : Nat) (s : Source) : missingEmail (s.below k) = missingEmail s := by
  have hrefuses : emailPattern.refuses = true := (Bool.and_eq_true_iff.mp portable_emailPattern).2
  unfold missingEmail
  rw [s.isFoundIn_below (by decide) hrefuses]

/-- A rule that looks for a word anywhere in the text. -/
theorem tag_below {word : String} (hword : word.toList ≠ []) (hfeed : '\n' ∉ word.toList)
    (k : Nat) (s : Source) :
    (.ok (Source.firstLineUnless ((s.below k).mentions word)) : Except RuleFault (List Hit)) =
      .ok (Source.firstLineUnless (s.mentions word)) := by
  rw [s.mentions_below hword hfeed]

theorem firstMixture_succ (tabs spaces : Bool) (n : Nat) (ls : List (List Char)) :
    firstMixture tabs spaces (n + 1) ls = (firstMixture tabs spaces n ls).map (· + 1) := by
  induction ls generalizing tabs spaces n with
  | nil => rfl
  | cons line rest ih =>
    unfold firstMixture
    dsimp only
    split
    · rfl
    · exact ih _ _ (n + 1)

/-- The first line has no indentation, and the next ones are counted from two. -/
theorem carries_mixedTabsSpaces : Change.blankLine.Carries mixedTabsSpaces := by
  intro s
  show mixedTabsSpaces (s.below 1) = List.map (Hit.below 1) <$> mixedTabsSpaces s
  have hlines : Text.lines (s.below 1).chars = [] :: Text.lines s.chars := by
    rw [s.chars_below]
    exact Text.lines_append_newline List.not_mem_nil s.chars
  have hmixture : firstMixture false false 1 ([] :: Text.lines s.chars) =
      (firstMixture false false 1 (Text.lines s.chars)).map (· + 1) :=
    firstMixture_succ false false 1 (Text.lines s.chars)
  unfold mixedTabsSpaces
  rw [hlines, hmixture]
  cases firstMixture false false 1 (Text.lines s.chars) <;> rfl

theorem unneededShebang_below {k : Nat} (hk : 1 ≤ k) (s : Source) :
    unneededShebang (s.below k) = .ok [] := by
  obtain ⟨k, rfl⟩ := Nat.exists_eq_add_of_le' hk
  unfold unneededShebang
  rw [s.chars_below, List.replicate_succ, List.cons_append,
    Text.isPrefixOf_cons_of_not_mem (by decide)]
  rfl

end Rules

theorem RuleName.speaksOnce_of_mem_unlocated :
    ∀ name ∈ RuleName.unlocated, name.speaksOnce = true := by
  decide

namespace Rule

theorem carries_blankLine {r : Rule} (hr : r ∈ table) (hname : r.name.speaksOnce = false) :
    Change.blankLine.Carries r.detect :=
  Change.carries_detect hr hname (fun _ hp s => s.search_below_one hp.isLocal hp.refuses)
    (Source.mentions_below (by decide) (by decide) 1)

/-- Blank lines in front of a script move the hits of a rule down by as many lines and change
nothing else, unless the rule speaks about the script as a whole or about its first line. -/
theorem detect_below {r : Rule} (hr : r ∈ table) {k : Nat} (hk : 1 ≤ k) (s : Source) :
    ∃ hits, r.detect s = .ok hits ∧
      (r.name ∈ RuleName.unlocated → r.detect (s.below k) = .ok hits) ∧
      (r.name = .unneededShebang → r.detect (s.below k) = .ok []) ∧
      (r.name ∉ RuleName.unlocated → r.name ≠ .unneededShebang →
        r.detect (s.below k) = .ok (hits.map (Hit.below k))) := by
  obtain ⟨hits, hhits, _⟩ := answers_of_mem_table hr s
  have hmoved : List.map (Hit.below k) <$> r.detect s = .ok (hits.map (Hit.below k)) := by
    rw [hhits]
    rfl
  refine ⟨hits, hhits, ?_⟩
  rw [← hmoved, ← hhits]
  cases hname : r.name.speaksOnce with
  | false =>
    refine ⟨fun hmem => ?_, fun hshebang => ?_, fun _ _ => ?_⟩
    · rw [RuleName.speaksOnce_of_mem_unlocated r.name hmem] at hname
      cases hname
    · rw [hshebang] at hname
      cases hname
    · exact detect_below_of_carries (carries_blankLine hr hname) k s
  | true =>
    refine speaksOnceCases hr hname ?_ ?_ ?_ ?_ ?_
    · exact ⟨fun _ => missingEmail_below k s, nofun, fun hmem => absurd (by decide) hmem⟩
    · exact ⟨fun hmem => absurd hmem (by decide), nofun,
        fun _ _ => detect_below_of_carries carries_mixedTabsSpaces k s⟩
    · exact ⟨fun hmem => absurd hmem (by decide), fun _ => unneededShebang_below hk s,
        fun _ hne => absurd rfl hne⟩
    · exact ⟨fun _ => tag_below (by decide) (by decide) k s, nofun,
        fun hmem => absurd (by decide) hmem⟩
    · exact ⟨fun _ => tag_below (by decide) (by decide) k s, nofun,
        fun hmem => absurd (by decide) hmem⟩

theorem detect_below_secondLine :
    let r : Rule := ⟨.sysExit, .warning, some ["py"], sysExit⟩
    let s : Source := ⟨Path.ofString "a.py", "import sys\nsys.exit()"⟩
    r ∈ table ∧ 1 ≤ 2 ∧ r.detect s = .ok [Hit.at 2] ∧ r.detect (s.below 2) = .ok [Hit.at 4] := by
  intro r s
  have hr : r ∈ table := by simp [table, r]
  have hs : r.detect s = .ok [Hit.at 2] := by decide +kernel
  obtain ⟨hits, hhits, _, _, hbelow⟩ := detect_below hr (show 1 ≤ 2 by decide) s
  obtain rfl : hits = [Hit.at 2] := Except.ok.inj (hhits.symm.trans hs)
  exact ⟨hr, by decide, hs, hbelow (by decide) (by decide)⟩

end Rule

end ScriptAudit
