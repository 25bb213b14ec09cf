import Mathlib.Data.Finset.Basic
import ScriptAudit.Message.RuleName
import ScriptAudit.Proofs.Text.Entries

/-! # Lists of what is to be ignored

A list names a rule when one of its entries is the name of the rule, so the order of the entries,
repetitions and whatever is no name of a rule make no difference to the set of the rules that are
ignored. The files that are ignored are the entries as they stand. Main statements:
`mem_parseList_iff`, `toFinset_parseList_append` and `ignoreLists_readBack`.
-/
namespace ScriptAudit.RuleName
open Text

variable {r : RuleName} {rules : Finset RuleName} {texts : List String} {list text : String}

theorem trimmed_name (r : RuleName) : Trimmed r.name.toList := by
  constructor
  all_goals
    intro c hc
    revert hc
    cases r
    all_goals
      rintro ⟨⟩
      decide

theorem comma_not_mem_name (r : RuleName) : ',' ∉ r.name.toList := by
  cases r <;> decide

theorem name_ne_nil (r : RuleName) : r.name.toList ≠ [] := by
  cases r <;> decide

theorem name_injective : Function.Injective name := by
  intro r r'
  cases r <;> cases r' <;> decide

theorem mem_all (r : RuleName) : r ∈ all := by
  cases r <;> decide

theorem mem_parseList_iff : r ∈ parseList list ↔ r.name ∈ entries list := by
  simp [parseList, mem_all]

/-- Two lists that are joined by a comma name the rules of both. -/
theorem toFinset_parseList_append (a b : String) : (parseList (a ++ "," ++ b)).toFinset =
    (parseList a).toFinset ∪ (parseList b).toFinset := by
  ext r
  rw [Finset.mem_union, List.mem_toFinset, List.mem_toFinset, List.mem_toFinset,
    mem_parseList_iff, mem_parseList_iff, mem_parseList_iff, entries_append_comma, List.mem_append]

/-- What can stand between two commas where the rules of a set are named: the name of one of them
with white space around it, nothing but white space, or something else that is no rule's name. -/
inductive IsEntry (rules : Finset RuleName) (text : String) : Prop where
  | name (r : RuleName) (hr : r ∈ rules) (h : Padded r.name.toList text.toList)
  | blank (h : AllBlank text.toList)
  | other (hcomma : ',' ∉ text.toList) (h : ∀ r : RuleName, ¬ Padded r.name.toList text.toList)

/-- The texts name the rules of the set and no others, in any order and as often as one likes. -/
structure NamesExactly (rules : Finset RuleName) (texts : List String) : Prop where
  isEntry : ∀ text ∈ texts, IsEntry rules text
  complete : ∀ r ∈ rules, ∃ text ∈ texts, Padded r.name.toList text.toList

theorem IsEntry.comma_not_mem (h : IsEntry rules text) : ',' ∉ text.toList := by
  cases h with
  | name r _ h => exact h.comma_not_mem r.comma_not_mem_name
  | blank h => exact h.comma_not_mem
  | other hcomma _ => exact hcomma

theorem IsEntry.mem_of_padded (h : IsEntry rules text) (hr : Padded r.name.toList text.toList) :
    r ∈ rules := by
  have htrim := trim_of_padded r.trimmed_name hr
  cases h with
  | name r' hr' h =>
    have hname := htrim.symm.trans (trim_of_padded r'.trimmed_name h)
    rwa [name_injective (String.toList_inj.mp hname)]
  | blank h => exact absurd (htrim.symm.trans (trim_of_allBlank h)) r.name_ne_nil
  | other _ h => exact absurd hr (h r)

theorem toFinset_parseList_intercalate (h : NamesExactly rules texts) :
    (parseList (",".intercalate texts)).toFinset = rules := by
  ext r
  rw [List.mem_toFinset, mem_parseList_iff, entries_intercalate, List.mem_flatMap]
  have hentry : ∀ text ∈ texts, r.name ∈ entries text ↔ Padded r.name.toList text.toList :=
    fun text ht => mem_entries_iff (h.isEntry text ht).comma_not_mem r.trimmed_name r.name_ne_nil
  constructor
  · rintro ⟨text, ht, hmem⟩
    exact (h.isEntry text ht).mem_of_padded ((hentry text ht).mp hmem)
  · intro hr
    obtain ⟨text, ht, hpadded⟩ := h.complete r hr
    exact ⟨text, ht, (hentry text ht).mpr hpadded⟩

/-- Lists of rules and of files can be put together and read back: joined by a comma they come to
the union of the rules and to the files of one behind those of the other, and each set of rules and
each list of plain names is what some list is read as, however it is written. -/
theorem ignoreLists_readBack :
    (∀ a b : String, (parseList (a ++ "," ++ b)).toFinset =
      (parseList a).toFinset ∪ (parseList b).toFinset) ∧
    (∀ a b : String, entries (a ++ "," ++ b) = entries a ++ entries b) ∧
    (∀ rules texts, NamesExactly rules texts →
      (parseList (",".intercalate texts)).toFinset = rules) ∧
    ∀ names : List String, (∀ name ∈ names, IsPlain name) →
      entries (",".intercalate names) = names :=
  ⟨toFinset_parseList_append, entries_append_comma, fun _ _ => toFinset_parseList_intercalate,
    fun _ => entries_intercalate_of_plain⟩

/-- A wide blank in front of a name, a name that is given twice, and one that lacks a letter. -/
theorem ignoreLists_readBack_padded :
    let rules : Finset RuleName := {sysExit, missingEmail}
    let texts := ["\u3000sys_exit", "", "missing_email ", "missing_emai", "sys_exit"]
    let names := ["a b.py", "c.pl"]
    NamesExactly rules texts ∧ (∀ name ∈ names, IsPlain name) ∧
      (parseList (",".intercalate texts)).toFinset = rules ∧
      entries (",".intercalate names) = names := by
  intro rules texts names
  have hblank (cs : List Char) (h : cs.all Unicode.isBlank = true) : AllBlank cs :=
    List.all_eq_true.mp h
  have hwide : Padded sysExit.name.toList "\u3000sys_exit".toList :=
    ⟨['\u3000'], [], hblank _ (by decide), nofun, by decide⟩
  have hemail : Padded missingEmail.name.toList "missing_email ".toList :=
    ⟨[], [' '], nofun, hblank _ (by decide), by decide⟩
  have hplain : Padded sysExit.name.toList "sys_exit".toList := ⟨[], [], nofun, nofun, by decide⟩
  have hother : ∀ r : RuleName, ¬ Padded r.name.toList "missing_emai".toList := by
    intro r hr
    have htrim := trim_of_padded r.trimmed_name hr
    revert htrim
    cases r <;> decide
  have hnames : NamesExactly rules texts := by
    constructor
    · intro text htext
      simp only [texts, List.mem_cons, List.not_mem_nil, or_false] at htext
      rcases htext with rfl | rfl | rfl | rfl | rfl
      · exact .name sysExit (by decide) hwide
      · exact .blank nofun
      · exact .name missingEmail (by decide) hemail
      · exact .other (by decide) hother
      · exact .name sysExit (by decide) hplain
    · intro r hr
      simp only [rules, Finset.mem_insert, Finset.mem_singleton] at hr
      rcases hr with rfl | rfl
      · exact ⟨_, by simp [texts], hplain⟩
      · exact ⟨_, by simp [texts], hemail⟩
  have hfiles : ∀ name ∈ names, IsPlain name := by
    intro name hname
    simp only [names, List.mem_cons, List.not_mem_nil, or_false] at hname
    rcases hname with rfl | rfl
    · exact ⟨fun h => absurd (h 'a' (by decide)) (by decide), by decide,
        ⟨by rintro c ⟨⟩; decide, by rintro c ⟨⟩; decide⟩⟩
    · exact ⟨fun h => absurd (h 'c' (by decide)) (by decide), by decide,
        ⟨by rintro c ⟨⟩; decide, by rintro c ⟨⟩; decide⟩⟩
  obtain ⟨_, _, hrules, hentries⟩ := ignoreLists_readBack
  exact ⟨hnames, hfiles, hrules _ _ hnames, hentries _ hfiles⟩

end ScriptAudit.RuleName
