import ScriptAudit.Proofs.Pattern.LineEnds
import ScriptAudit.Proofs.Rules.Changes

/-! # The rules on converted texts

A rule is portable if its hits in a converted text are those in the text, each on its line and with
the text that it carries converted. Main statement: `Rule.portable_detect`, by which all rules are.
-/
namespace ScriptAudit

def Source.converted (s : Source) : Source := ⟨s.path, Text.converted s.text⟩

def Filling.converted : Filling → Filling
  | none => none
  | message value => message (Text.converted value)
  | link value => link (Text.converted value)

def Hit.converted (h : Hit) : Hit := ⟨h.line, h.filling.converted⟩

theorem Match.group_converted (m : Match) (n : Nat) :
    m.converted.group n = (m.group n).map Text.converted := by
  cases n with
  | zero => rfl
  | succ n =>
    simp only [group, converted, List.getElem?_map]
    cases m.groups[n]? <;> rfl

namespace Source

theorem chars_converted (s : Source) : s.converted.chars = Text.withReturns s.chars :=
  Text.toList_converted s.text

theorem search_converted {p : Pattern} (hp : p.portable = true) (s : Source) (maxLines : Nat) :
    s.converted.search p maxLines = (s.search p maxLines).map Match.converted :=
  Pattern.search_converted hp s.text maxLines

theorem mentions_converted {needle : String} (hfeed : '\n' ∉ needle.toList)
    (hreturn : '\r' ∉ needle.toList) (s : Source) :
    s.converted.mentions needle = s.mentions needle := by
  rw [mentions, chars_converted, Text.occursIn_withReturns hfeed hreturn]
  rfl

theorem firstLineUnless_converted (holds : Bool) :
    (firstLineUnless holds).map Hit.converted = firstLineUnless holds := by
  cases holds <;> rfl

end Source

open Rules

namespace Rules
open Pattern

/-- A rule that has the same hits in a text without carriage returns and in the converted one. -/
def Portable (d : Detector) : Prop :=
  ∀ s : Source, '\r' ∉ s.chars → d s.converted = List.map Hit.converted <$> d s

theorem portable_firstLineUnless {test : Source → Bool} (h : ∀ s, test s.converted = test s) :
    Portable fun s => .ok (Source.firstLineUnless (test s)) := by
  intro s _
  dsimp only
  rw [h]
  exact congrArg Except.ok (Source.firstLineUnless_converted (test s)).symm

theorem portable_mixedTabsSpaces : Portable mixedTabsSpaces := by
  intro s h
  unfold mixedTabsSpaces
  rw [s.chars_converted, Text.lines_withReturns h]
  cases firstMixture false false 1 (Text.lines s.chars) <;> rfl

/-! Patterns that disregard the case. -/

/-- No character is equal to one of a line end up to case. -/
theorem not_mem_caseOrbits : ∀ orbit ∈ Unicode.caseOrbits, '\n' ∉ orbit ∧ '\r' ∉ orbit := by
  decide +kernel

theorem contains_closeCase_of_not_mem {c : Char} (h : ∀ orbit ∈ Unicode.caseOrbits, c ∉ orbit)
    (cs : CharSet) : cs.closeCase.contains c = cs.contains c := by
  rw [Bool.eq_iff_iff, CharSet.contains_closeCase]
  constructor
  · rintro (hc | ⟨orbit, horbit, hmem, _⟩)
    · exact hc
    · exact absurd hmem (h orbit horbit)
  · exact Or.inl

theorem contains_closeCase_newline (cs : CharSet) :
    cs.closeCase.contains '\n' = cs.contains '\n' :=
  contains_closeCase_of_not_mem (fun orbit horbit => (not_mem_caseOrbits orbit horbit).1) cs

theorem contains_closeCase_return (cs : CharSet) :
    cs.closeCase.contains '\r' = cs.contains '\r' :=
  contains_closeCase_of_not_mem (fun orbit horbit => (not_mem_caseOrbits orbit horbit).2) cs

theorem portable_emailPattern : emailPattern.portable = true := by
  simp [emailPattern, addressWord, sign, spaces, anyCase, alphanumeric, literalAnyCase, char,
    Pattern.star, Pattern.optional, seqAll, portable, tolerates, refuses, avoids, leastLength,
    CharSet.contains, CharSet.contains_ofList, contains_closeCase_newline,
    contains_closeCase_return]

theorem portable_sitePattern : sitePattern.portable = true := by
  simp [sitePattern, anyCase, literalAnyCase, Pattern.optional, seqAll, portable, tolerates,
    refuses, avoids, leastLength, CharSet.contains, CharSet.contains_ofList,
    contains_closeCase_newline, contains_closeCase_return]

theorem portable_missingEmail : Portable missingEmail :=
  portable_firstLineUnless fun s => Pattern.isFoundIn_converted portable_emailPattern s.text

theorem portable_unneededShebang : Portable unneededShebang := by
  apply portable_firstLineUnless
  intro s
  rw [s.chars_converted, Text.isPrefixOf_withReturns (by decide) (by decide)]

/-- A rule that looks for a word anywhere in the text. -/
theorem portable_mentions {word : String} (hfeed : '\n' ∉ word.toList)
    (hreturn : '\r' ∉ word.toList) :
    Portable fun s => .ok (Source.firstLineUnless (s.mentions word)) :=
  portable_firstLineUnless fun s => s.mentions_converted hfeed hreturn

end Rules

/-- The matches in a converted script are the converted ones. -/
def Change.converted : Change where
  source := Source.converted
  found := Match.converted
  hit := Hit.converted
  hit_at _ := rfl
  hit_message m := by
    unfold messageName
    rw [m.group_converted]
    cases m.group 1 <;> rfl
  hit_link _ := rfl

theorem Pattern.IsSearched.portable {p : Pattern} (h : p.IsSearched) : p.portable = true := by
  cases h with
  | site => exact portable_sitePattern
  | _ => decide

/-- Every rule has the same hits in a text without carriage returns and in the converted one. -/
theorem Rule.portable_detect {r : Rule} (hr : r ∈ table) : Portable r.detect := by
  cases hname : r.name.speaksOnce with
  | true =>
    refine Rule.speaksOnceCases hr hname ?_ ?_ ?_ ?_ ?_
    · exact portable_missingEmail
    · exact portable_mixedTabsSpaces
    · exact portable_unneededShebang
    · exact portable_mentions (by decide) (by decide)
    · exact portable_mentions (by decide) (by decide)
  | false =>
    have hcarries : Change.converted.Carries r.detect :=
      Change.carries_detect hr hname (fun _ hp s => s.search_converted hp.portable)
        (Source.mentions_converted (by decide) (by decide))
    exact fun s _ => hcarries s

end ScriptAudit
