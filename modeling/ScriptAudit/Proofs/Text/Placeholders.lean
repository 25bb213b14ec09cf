import Mathlib.Data.List.Basic
import Mathlib.Data.List.Infix

/-! # Placeholders

A placeholder is a name in braces. Placeholders do not overlap, so a text is cut at them in one way
only, and there is one result when each of them is replaced by the value for its name. The values
are not searched for placeholders, whatever they look like. Main statements: `braced_apart`,
`Replaced.unique`, `FirstMissing.unique` and `Replaced.supply_eq`, by which the result tells the
values.
-/
namespace ScriptAudit.Text

/-- One or more small letters and underscores. -/
structure IsLowerName (name : String) : Prop where
  ne_nil : name.toList ≠ []
  lower : ∀ c ∈ name.toList, 'a' ≤ c ∧ c ≤ 'z' ∨ c = '_'

def braced (name : String) : List Char := '\x7b' :: (name.toList ++ ['\x7d'])

/-- The text has a placeholder of this name. -/
structure Holds (name : String) (text : List Char) : Prop where
  isName : IsLowerName name
  occurs : braced name <:+: text

def Bare (text : List Char) : Prop := ∀ name, ¬ Holds name text

/-- A text and what becomes of it when each placeholder is replaced by the value for its name. -/
inductive Replaced (supply : String → Option String) : List Char → List Char → Prop where
  | done {gap : List Char} (hgap : Bare gap) : Replaced supply gap gap
  | next {gap rest result : List Char} {name value : String} (hgap : Bare gap)
      (hname : IsLowerName name) (hvalue : supply name = some value) (h : Replaced supply rest result) :
      Replaced supply (gap ++ (braced name ++ rest)) (gap ++ (value.toList ++ result))

/-- The first placeholder of the text for which there is no value has this name. -/
structure FirstMissing (supply : String → Option String) (text : List Char) (name : String) :
    Prop where
  isName : IsLowerName name
  missing : supply name = none
  exists_eq : ∃ before behind, text = before ++ (braced name ++ behind) ∧
    ∀ n, Holds n before → supply n ≠ none

variable {supply supply' : String → Option String} {name name' : String} {c : Char}
variable {cs text gap gap' before before' behind behind' rest rest' result result' : List Char}

theorem IsLowerName.not_mem (h : IsLowerName name) (hc : ¬ ('a' ≤ c ∧ c ≤ 'z' ∨ c = '_')) :
    c ∉ name.toList := fun hmem => hc (h.lower c hmem)

theorem IsLowerName.openBrace_not_mem (h : IsLowerName name) : '\x7b' ∉ name.toList :=
  h.not_mem (by decide)

theorem IsLowerName.closeBrace_not_mem (h : IsLowerName name) : '\x7d' ∉ name.toList :=
  h.not_mem (by decide)

theorem holds_braced (hname : IsLowerName name) (before behind : List Char) :
    Holds name (before ++ (braced name ++ behind)) :=
  ⟨hname, before, behind, List.append_assoc _ _ _⟩

theorem Holds.exists_eq (h : Holds name text) :
    ∃ before behind, text = before ++ (braced name ++ behind) := by
  obtain ⟨_, before, behind, rfl⟩ := h
  exact ⟨before, behind, List.append_assoc _ _ _⟩

theorem FirstMissing.holds (h : FirstMissing supply text name) : Holds name text := by
  obtain ⟨hname, _, before, behind, rfl, _⟩ := h
  exact holds_braced hname before behind

/-- A character that a text lacks comes behind it. -/
theorem exists_eq_append_of_not_mem (hc : c ∉ cs) (h : cs ++ rest = before ++ c :: behind) :
    ∃ mid, before = cs ++ mid ∧ rest = mid ++ c :: behind := by
  rcases List.append_eq_append_iff.mp h with ⟨mid, hbefore, hrest⟩ | ⟨mid, hcs, hrest⟩
  · exact ⟨mid, hbefore, hrest⟩
  · cases mid with
    | nil => exact ⟨[], by simpa using hcs.symm, by simpa using hrest.symm⟩
    | cons d mid =>
      obtain rfl := (List.cons.inj hrest).1
      exact absurd (hcs ▸ List.mem_append_right before List.mem_cons_self) hc

theorem braced_append_inj (hname : IsLowerName name) (hname' : IsLowerName name')
    (h : braced name ++ behind = braced name' ++ behind') : name = name' ∧ behind = behind' := by
  simp only [braced, List.cons_append, List.append_assoc, List.nil_append, List.cons.injEq,
    true_and] at h
  obtain ⟨mid, hmid, hbehind⟩ := exists_eq_append_of_not_mem hname.closeBrace_not_mem h
  cases mid with
  | nil =>
    rw [List.append_nil] at hmid
    exact ⟨(String.toList_inj.mp hmid).symm, (List.cons.inj hbehind).2⟩
  | cons d mid =>
    obtain rfl := (List.cons.inj hbehind).1
    exact absurd (hmid ▸ List.mem_append_right _ List.mem_cons_self) hname'.closeBrace_not_mem

/-- What comes before a placeholder is empty, or has the placeholder at its start as a whole. -/
theorem eq_or_prefix_of_braced (hname : IsLowerName name) (hname' : IsLowerName name')
    (h : braced name ++ behind = gap ++ (braced name' ++ behind')) :
    (gap = [] ∧ name = name' ∧ behind = behind') ∨ braced name <+: gap := by
  cases gap with
  | nil => exact .inl ⟨rfl, braced_append_inj hname hname' h⟩
  | cons c gap =>
    right
    have hopen : '\x7b' ∉ name.toList ++ ['\x7d'] := by
      simp [hname.openBrace_not_mem]
    obtain ⟨hc, htail⟩ := List.cons.inj h
    obtain ⟨mid, rfl, _⟩ := exists_eq_append_of_not_mem hopen htail
    subst hc
    exact ⟨mid, rfl⟩

/-- Two placeholders of a text are the same, or one of them ends before the other one starts. -/
theorem braced_apart (hname : IsLowerName name) (hname' : IsLowerName name')
    (h : before ++ (braced name ++ behind) = before' ++ (braced name' ++ behind')) :
    (before = before' ∧ name = name' ∧ behind = behind') ∨
      before ++ braced name <+: before' ∨ before' ++ braced name' <+: before := by
  rcases List.append_eq_append_iff.mp h with ⟨mid, rfl, hmid⟩ | ⟨mid, rfl, hmid⟩
  · rcases eq_or_prefix_of_braced hname hname' hmid with ⟨rfl, heq⟩ | hprefix
    · exact .inl ⟨(List.append_nil before).symm, heq⟩
    · exact .inr (.inl ((List.prefix_append_right_inj before).mpr hprefix))
  · rcases eq_or_prefix_of_braced hname' hname hmid with ⟨rfl, rfl, rfl⟩ | hprefix
    · exact .inl ⟨List.append_nil before', rfl, rfl⟩
    · exact .inr (.inr ((List.prefix_append_right_inj before').mpr hprefix))

theorem holds_of_isPrefix (hname : IsLowerName name) (h : before ++ braced name <+: text) :
    Holds name text :=
  ⟨hname, (List.suffix_append before (braced name)).isInfix.trans h.isInfix⟩

theorem FirstMissing.unique (h : FirstMissing supply text name)
    (h' : FirstMissing supply text name') : name = name' := by
  obtain ⟨hname, hmissing, before, behind, rfl, hbefore⟩ := h
  obtain ⟨hname', hmissing', before', behind', heq, hbefore'⟩ := h'
  rcases braced_apart hname hname' heq with ⟨_, hnames, _⟩ | hprefix | hprefix
  · exact hnames
  · exact absurd hmissing (hbefore' name (holds_of_isPrefix hname hprefix))
  · exact absurd hmissing' (hbefore name' (holds_of_isPrefix hname' hprefix))

theorem bare_gap_inj (hgap : Bare gap) (hgap' : Bare gap') (hname : IsLowerName name)
    (hname' : IsLowerName name') (h : gap ++ (braced name ++ rest) = gap' ++ (braced name' ++ rest')) :
    gap = gap' ∧ name = name' ∧ rest = rest' := by
  rcases braced_apart hname hname' h with heq | hprefix | hprefix
  · exact heq
  · exact absurd (holds_of_isPrefix hname hprefix) (hgap' name)
  · exact absurd (holds_of_isPrefix hname' hprefix) (hgap name')

theorem holds_gap_append_iff (hgap : Bare gap) (hname : IsLowerName name) :
    Holds name' (gap ++ (braced name ++ rest)) ↔ name' = name ∨ Holds name' rest := by
  constructor
  · intro h
    obtain ⟨before, behind, heq⟩ := h.exists_eq
    rcases braced_apart hname h.isName heq with ⟨_, hnames, _⟩ | ⟨mid, rfl⟩ | hprefix
    · exact .inl hnames.symm
    · simp only [List.append_assoc, List.append_cancel_left_eq] at heq
      rw [heq]
      exact .inr (holds_braced h.isName mid behind)
    · exact absurd (holds_of_isPrefix h.isName hprefix) (hgap name')
  · rintro (rfl | h)
    · exact holds_braced hname gap rest
    · have hsuffix : rest <:+ gap ++ (braced name ++ rest) :=
        (List.suffix_append (braced name) rest).trans (List.suffix_append gap _)
      exact ⟨h.isName, h.occurs.trans hsuffix.isInfix⟩

/-- No placeholder starts in a text without an opening brace. -/
theorem holds_append_iff (hcs : '\x7b' ∉ cs) : Holds name (cs ++ text) ↔ Holds name text := by
  constructor
  · intro h
    obtain ⟨before, behind, heq⟩ := h.exists_eq
    obtain ⟨mid, _, rfl⟩ := exists_eq_append_of_not_mem hcs heq
    exact holds_braced h.isName mid behind
  · exact fun h => ⟨h.isName, h.occurs.trans (List.suffix_append cs text).isInfix⟩

theorem bare_nil : Bare [] := fun _ h => List.cons_ne_nil _ _ (List.infix_nil.mp h.occurs)

theorem bare_of_not_mem (hcs : '\x7b' ∉ cs) : Bare cs := fun name h =>
  bare_nil name ((holds_append_iff hcs).mp ((List.append_nil cs).symm ▸ h))

namespace FirstMissing

theorem of_gap (hgap : Bare gap) (hname : IsLowerName name) (hmissing : supply name = none)
    (rest : List Char) : FirstMissing supply (gap ++ (braced name ++ rest)) name :=
  ⟨hname, hmissing, gap, rest, rfl, fun n hn => absurd hn (hgap n)⟩

theorem gap_append (hgap : Bare gap) (hname' : IsLowerName name') (hvalue : supply name' ≠ none)
    (h : FirstMissing supply rest name) :
    FirstMissing supply (gap ++ (braced name' ++ rest)) name := by
  obtain ⟨hname, hmissing, before, behind, rfl, hbefore⟩ := h
  refine ⟨hname, hmissing, gap ++ (braced name' ++ before), behind, by simp, ?_⟩
  intro n hn
  rcases (holds_gap_append_iff hgap hname').mp hn with rfl | hn
  · exact hvalue
  · exact hbefore n hn

end FirstMissing

namespace Replaced

theorem eq_of_bare (h : Replaced supply text result) (htext : Bare text) : result = text := by
  cases h with
  | done _ => rfl
  | next _ hname _ _ => exact absurd (holds_braced hname _ _) (htext _)

theorem exists_of_gap (h : Replaced supply (gap ++ (braced name ++ rest)) result) (hgap : Bare gap)
    (hname : IsLowerName name) : ∃ value tail, supply name = some value ∧ Replaced supply rest tail ∧
      result = gap ++ (value.toList ++ tail) := by
  generalize htext : gap ++ (braced name ++ rest) = text at h
  cases h with
  | done hbare => exact absurd (htext ▸ holds_braced hname gap rest) (hbare name)
  | next hgap' hname' hvalue h =>
    obtain ⟨rfl, rfl, rfl⟩ := bare_gap_inj hgap hgap' hname hname' htext
    exact ⟨_, _, hvalue, h, rfl⟩

theorem unique (h : Replaced supply text result) (h' : Replaced supply text result') :
    result = result' := by
  induction h generalizing result' with
  | done hgap => exact (h'.eq_of_bare hgap).symm
  | next hgap hname hvalue _ ih =>
    obtain ⟨value, tail, hvalue', htail, rfl⟩ := h'.exists_of_gap hgap hname
    obtain rfl := Option.some.inj (hvalue.symm.trans hvalue')
    rw [ih htail]

theorem supply_ne_none (h : Replaced supply text result) (hholds : Holds name text) :
    supply name ≠ none := by
  induction h with
  | done hgap => exact absurd hholds (hgap name)
  | next hgap hname hvalue _ ih =>
    rcases (holds_gap_append_iff hgap hname).mp hholds with rfl | hrest
    · simp [hvalue]
    · exact ih hrest

/-- A character that the text lacks gets into the result through the values only. -/
theorem mem_iff (h : Replaced supply text result) (hc : c ∉ text) : c ∈ result ↔
    ∃ name, Holds name text ∧ ∃ value, supply name = some value ∧ c ∈ value.toList := by
  induction h with
  | done hgap => exact iff_of_false hc fun ⟨name, hholds, _⟩ => hgap name hholds
  | @next gap rest result name value hgap hname hvalue _ ih =>
    obtain ⟨hcgap, hcrest⟩ := not_or.mp (mt List.mem_append.mpr hc)
    have hrest : c ∉ rest := fun hmem => hcrest (List.mem_append_right _ hmem)
    simp only [List.mem_append, ih hrest, hcgap, false_or, holds_gap_append_iff hgap hname,
      or_and_right, exists_or, exists_eq_left, hvalue, Option.some.injEq, exists_eq_left']

/-- Values may be changed along with the result if the gaps stay what they are. -/
theorem map (h : Replaced supply text result) {f : List Char → List Char}
    (happend : ∀ cs ds, f (cs ++ ds) = f cs ++ f ds) (hgaps : ∀ gap, gap <:+: text → f gap = gap)
    (hsupply : ∀ name value, supply name = some value →
      ∃ value', supply' name = some value' ∧ value'.toList = f value.toList) :
    Replaced supply' text (f result) := by
  induction h with
  | done hgap =>
    rw [hgaps _ List.infix_rfl]
    exact .done hgap
  | @next gap rest result name value hgap hname hvalue _ ih =>
    obtain ⟨value', hvalue', hf⟩ := hsupply name value hvalue
    have hrest : rest <:+: gap ++ (braced name ++ rest) :=
      ((List.suffix_append _ _).trans (List.suffix_append _ _)).isInfix
    have hgap' : f gap = gap := hgaps gap (List.prefix_append _ _).isInfix
    rw [happend, happend, hgap', ← hf]
    exact .next hgap hname hvalue' (ih fun gap' hgap' => hgaps gap' (hgap'.trans hrest))

theorem not_firstMissing (h : Replaced supply text result) : ¬ FirstMissing supply text name :=
  fun h' => h.supply_ne_none h'.holds h'.missing

/-- The values of one supply are nowhere longer than those of the other one. -/
def NoLonger (supply supply' : String → Option String) : Prop :=
  ∀ name value value', supply name = some value → supply' name = some value' →
    value.toList.length ≤ value'.toList.length

theorem length_le (hle : NoLonger supply supply') (h : Replaced supply text result)
    (h' : Replaced supply' text result') : result.length ≤ result'.length := by
  induction h generalizing result' with
  | done hgap => exact Nat.le_of_eq (congrArg List.length (h'.eq_of_bare hgap).symm)
  | next hgap hname hvalue _ ih =>
    obtain ⟨value', tail', hvalue', htail', rfl⟩ := h'.exists_of_gap hgap hname
    simp only [List.length_append]
    have hfirst := hle _ _ _ hvalue hvalue'
    have hothers := ih htail'
    omega

-- The lengths of the values are needed: a value could else begin with the next gap of the text.
theorem supply_eq (hle : NoLonger supply supply') (h : Replaced supply text result)
    (h' : Replaced supply' text result) (hholds : Holds name text) : supply name = supply' name := by
  induction h with
  | done hgap => exact absurd hholds (hgap name)
  | @next gap rest result first value hgap hname hvalue h ih =>
    obtain ⟨value', tail', hvalue', htail', heq⟩ := h'.exists_of_gap hgap hname
    have hsame : value.toList ++ result = value'.toList ++ tail' := List.append_cancel_left heq
    have hlength : value.toList.length = value'.toList.length := by
      have hvalues := hle _ _ _ hvalue hvalue'
      have htails := length_le hle h htail'
      have htotal := congrArg List.length hsame
      simp only [List.length_append] at htotal
      omega
    obtain ⟨hvalues, rfl⟩ := List.append_inj hsame hlength
    rcases (holds_gap_append_iff hgap hname).mp hholds with rfl | hrest
    · rw [hvalue, hvalue', String.toList_inj.mp hvalues]
    · exact ih htail' hrest

end Replaced
end ScriptAudit.Text
