import ScriptAudit.Proofs.Pattern.Literal

/-! # Former and new names of functions

Two functions have lost the prefix `hook_` of their names. A script that uses a former name is left
alone if it uses the new one just as often, where the new name inside the former one does not
count. Nor does a new name that follows a character of a word, as it does behind a prefix that
ends in an underscore. Main statement: `HookCompletion.detect_eq`.
-/
namespace ScriptAudit.Rules
open Pattern

/-- A function that was renamed. -/
inductive HookCompletion where
  | getString
  | listAdd
  deriving DecidableEq, Repr

namespace HookCompletion

def name : HookCompletion → String
  | getString => "completion_get_string"
  | listAdd => "completion_list_add"

def formerName (f : HookCompletion) : String := "hook_" ++ f.name

def detect : HookCompletion → Detector
  | getString => hookCompletionGetString
  | listAdd => hookCompletionListAdd

def formerUses (f : HookCompletion) (s : Source) : List Nat :=
  Text.occurrences f.formerName.toList s.chars

/-- The uses of the new name, those aside that belong to the former name. -/
def newUses (f : HookCompletion) (s : Source) : List Nat :=
  Text.occurrencesApart f.formerName.toList f.name.toList s.chars

/-- The uses of the new name behind a character of a word. -/
def gluedUses (f : HookCompletion) (s : Source) : List Nat :=
  (f.newUses s).filter (Text.followsWord s.chars)

/-- One hit for each use of the former name, unless there are as many as `new`. -/
def hitsUnless (f : HookCompletion) (s : Source) (new : Nat) : List Hit :=
  if (f.formerUses s).length = new then []
  else (f.formerUses s).map fun i => Hit.at (Text.lineOf s.chars i)

theorem detect_eq_deprecated (f : HookCompletion) :
    f.detect = deprecated (literal f.formerName) (wordStart f.name) 1 := by
  cases f <;> rfl

theorem exists_name (f : HookCompletion) :
    ∃ others, f.name.toList = 'c' :: others ∧ Text.IsName 'c' others := by
  cases f with
  | getString => exact ⟨"ompletion_get_string".toList, rfl, by decide, by decide, by decide⟩
  | listAdd => exact ⟨"ompletion_list_add".toList, rfl, by decide, by decide, by decide⟩

theorem exists_formerName (f : HookCompletion) :
    ∃ others, f.formerName.toList = 'h' :: others ∧ Text.IsName 'h' others := by
  cases f with
  | getString => exact ⟨"ook_completion_get_string".toList, rfl, by decide, by decide, by decide⟩
  | listAdd => exact ⟨"ook_completion_list_add".toList, rfl, by decide, by decide, by decide⟩

/-- A new name inside a former one follows its underscore. -/
theorem filter_newUses (f : HookCompletion) (s : Source) :
    (Text.occurrences f.name.toList s.chars).filter (fun j => !Text.followsWord s.chars j) =
      (f.newUses s).filter fun j => !Text.followsWord s.chars j := by
  obtain ⟨others, hname, _⟩ := f.exists_name
  have hformer : f.formerName.toList = "hook".toList ++ '_' :: 'c' :: others := by
    rw [formerName, String.toList_append, hname]
    rfl
  rw [newUses, Text.occurrencesApart, List.filter_filter]
  apply List.filter_congr
  intro j hj
  cases hglued : Text.followsWord s.chars j with
  | true => rfl
  | false =>
    have hapart : ∀ i ∈ Text.occurrences f.formerName.toList s.chars,
        ¬ Text.Within f.formerName.toList f.name.toList i j := by
      intro i hi hwithin
      rw [hformer] at hi hwithin
      rw [hname] at hj hwithin
      have hfollows := Text.followsWord_of_within (by decide) (by decide) (by decide)
        (Text.mem_occurrences.mp hi).2 (Text.mem_occurrences.mp hj).2 hwithin
      rw [hglued] at hfollows
      cases hfollows
    simpa using hapart

theorem length_newUses (f : HookCompletion) (s : Source) :
    (f.newUses s).length = (f.gluedUses s).length +
      ((f.newUses s).filter fun j => !Text.followsWord s.chars j).length := by
  rw [gluedUses, ← List.countP_eq_length_filter, ← List.countP_eq_length_filter,
    List.length_eq_countP_add_countP (Text.followsWord s.chars)]
  congr 2
  funext j
  cases Text.followsWord s.chars j <;> rfl

theorem detect_eq (f : HookCompletion) (s : Source) :
    f.detect s = .ok (f.hitsUnless s ((f.newUses s).length - (f.gluedUses s).length)) := by
  obtain ⟨_, hformer, hformerName⟩ := f.exists_formerName
  obtain ⟨_, hname, hisName⟩ := f.exists_name
  have hold : (s.search (literal f.formerName) 1).map (·.line) =
      (f.formerUses s).map (Text.lineOf s.chars) :=
    Source.lines_search_literal (hformer ▸ hformerName.newline_not_mem)
      (hformer ▸ hformerName.unbordered) s
  have hnew := Source.lines_search_wordStart hname hisName s
  rw [filter_newUses] at hnew
  have holdLength : (s.search (literal f.formerName) 1).length = (f.formerUses s).length := by
    simpa using congrArg List.length hold
  have hnewLength : (s.search (wordStart f.name) 1).length =
      (f.newUses s).length - (f.gluedUses s).length := by
    have hlength := congrArg List.length hnew
    rw [List.length_map, List.length_map] at hlength
    rw [hlength, length_newUses, Nat.add_sub_cancel_left]
  have hhits : (s.search (literal f.formerName) 1).map (fun m => Hit.at m.line) =
      (f.formerUses s).map fun i => Hit.at (Text.lineOf s.chars i) := by
    have hmap := congrArg (List.map Hit.at) hold
    rwa [List.map_map, List.map_map] at hmap
  rw [detect_eq_deprecated]
  unfold deprecated hitsUnless
  simp only [holdLength, hnewLength, hhits]

theorem hitsUnless_eq_iff (f : HookCompletion) (s : Source) (m n : Nat) :
    f.hitsUnless s m = f.hitsUnless s n ↔ f.formerUses s = [] ∨
      ((f.formerUses s).length = m ↔ (f.formerUses s).length = n) := by
  unfold hitsUnless
  by_cases hm : (f.formerUses s).length = m
  · by_cases hn : (f.formerUses s).length = n
    · rw [if_pos hm, if_pos hn]
      exact iff_of_true rfl (Or.inr (iff_of_true hm hn))
    · rw [if_pos hm, if_neg hn, iff_false_right hn, eq_comm, List.map_eq_nil_iff]
      exact (or_iff_left (not_not_intro hm)).symm
  · by_cases hn : (f.formerUses s).length = n
    · rw [if_neg hm, if_pos hn, iff_false_left hm, List.map_eq_nil_iff]
      exact (or_iff_left (not_not_intro hn)).symm
    · rw [if_neg hm, if_neg hn]
      exact iff_of_true rfl (Or.inr (iff_of_false hm hn))

/-- Each use of a former name is reported on its line, unless the uses of the new name that follow
no character of a word are just as many. This is what counting all uses of the new name would give,
except where those behind a character of a word decide whether the numbers are equal. -/
theorem detect_uses (f : HookCompletion) (s : Source) :
    f.detect s = .ok (f.hitsUnless s ((f.newUses s).length - (f.gluedUses s).length)) ∧
    (f.detect s = .ok (f.hitsUnless s (f.newUses s).length) ↔
      f.formerUses s = [] ∨ f.gluedUses s = [] ∨
        ((f.formerUses s).length ≠ (f.newUses s).length ∧
          (f.formerUses s).length + (f.gluedUses s).length ≠ (f.newUses s).length)) := by
  refine ⟨f.detect_eq s, ?_⟩
  have hlength := f.length_newUses s
  rw [detect_eq, Except.ok.injEq, hitsUnless_eq_iff, ← List.length_eq_zero_iff (l := f.gluedUses s)]
  apply or_congr_right
  omega

/-- Behind an underscore the new name does not count. -/
theorem detect_ne_hitsUnless_of_underscore :
    getString.detect ⟨Path.ofString "a.php",
        "weechat_hook_completion_get_string();\nweechat_completion_get_string();"⟩ ≠
      .ok (getString.hitsUnless ⟨Path.ofString "a.php",
        "weechat_hook_completion_get_string();\nweechat_completion_get_string();"⟩
        (getString.newUses ⟨Path.ofString "a.php",
          "weechat_hook_completion_get_string();\nweechat_completion_get_string();"⟩).length) := by
  rw [detect_eq, ne_eq, Except.ok.injEq, hitsUnless_eq_iff]
  decide

end HookCompletion
end ScriptAudit.Rules
