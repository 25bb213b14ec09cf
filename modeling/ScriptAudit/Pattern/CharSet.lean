import ScriptAudit.Unicode.Blank
import ScriptAudit.Unicode.Digit
import ScriptAudit.Unicode.Word
import ScriptAudit.Unicode.CaseOrbit

/-! # Sets of characters

A character set is an expression built from single characters, ranges and the three named classes
by union and complement. `closeCase` adds whatever equals a member up to case; a negated set is
closed first and complemented afterwards.
-/
namespace ScriptAudit

inductive CharSet where
  | empty
  | one (c : Char)
  | range (first last : Char)
  | blank
  | digit
  | word
  | union (s t : CharSet)
  | compl (s : CharSet)
  deriving DecidableEq, Repr

namespace CharSet

def contains : CharSet → Char → Bool
  | empty, _ => false
  | one a, c => c == a
  | range a b, c => a ≤ c && c ≤ b
  | blank, c => Unicode.isBlank c
  | digit, c => Unicode.isDigit c
  | word, c => Unicode.isWord c
  | union s t, c => s.contains c || t.contains c
  | compl s, c => !s.contains c

def all : CharSet := compl empty

def unionAll (sets : List CharSet) : CharSet := sets.foldr union empty

def ofList (cs : List Char) : CharSet := unionAll (cs.map one)

/-- The members of the orbits that meet `s` and are not in `s` themselves. -/
def otherCases (s : CharSet) : List Char :=
  (Unicode.caseOrbits.filter (·.any s.contains)).flatten.filter (!s.contains ·)

/-- `s` with every character that equals a member of `s` up to case. -/
def closeCase (s : CharSet) : CharSet := union s (ofList s.otherCases)

def asciiLetters : List Char := "ABCDEFGHIJKLMNOPQRSTUVWXYZabcdefghijklmnopqrstuvwxyz".toList

/-- `s` with the letters of ASCII that equal a member of `s` up to case. -/
def closeAsciiCase (s : CharSet) : CharSet :=
  union s (ofList (asciiLetters.filter fun c =>
    s.contains (if c.isLower then c.toUpper else c.toLower)))

def ofRanges (rs : Unicode.Ranges) : CharSet :=
  unionAll (rs.map fun r => range (Char.ofNat r.1) (Char.ofNat r.2))

theorem contains_unionAll (sets : List CharSet) (c : Char) :
    (unionAll sets).contains c = sets.any (·.contains c) := by
  induction sets with
  | nil => rfl
  | cons s sets ih =>
    simp only [unionAll, List.foldr_cons, contains, List.any_cons] at ih ⊢
    rw [ih]

theorem contains_ofList (cs : List Char) (c : Char) : (ofList cs).contains c = cs.contains c := by
  rw [ofList, contains_unionAll, List.any_map, List.contains_eq_any_beq]
  rfl

theorem contains_closeCase (s : CharSet) (c : Char) :
    s.closeCase.contains c = true ↔
      s.contains c = true ∨ ∃ o ∈ Unicode.caseOrbits, c ∈ o ∧ ∃ d ∈ o, s.contains d = true := by
  simp only [closeCase, contains, contains_ofList, otherCases, Bool.or_eq_true,
    List.contains_iff_mem, List.mem_filter, List.mem_flatten, List.any_eq_true]
  constructor
  · rintro (h | ⟨⟨o, ⟨ho, d, hd, hs⟩, hc⟩, _⟩)
    · exact Or.inl h
    · exact Or.inr ⟨o, ho, hc, d, hd, hs⟩
  · rintro (h | ⟨o, ho, hc, d, hd, hs⟩)
    · exact Or.inl h
    · by_cases h : s.contains c = true
      · exact Or.inl h
      · exact Or.inr ⟨⟨o, ⟨ho, d, hd, hs⟩, hc⟩, by simp [h]⟩

end CharSet
end ScriptAudit
