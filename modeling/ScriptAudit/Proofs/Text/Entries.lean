import ScriptAudit.Proofs.Text.Split

/-! # The entries of a list

The entries of a comma-separated list are what is left of its pieces when white space around them is
trimmed and blank ones are left out. Lists that are joined by a comma have the entries of both, and
a piece becomes the word that stands in it with white space around it. Main statements:
`trim_eq_iff`, `entries_append_comma`, `mem_entries_iff` and `entries_intercalate_of_plain`.
-/
namespace ScriptAudit.Text
open Unicode

variable {cs left word right : List Char} {name text : String}

def AllBlank (cs : List Char) : Prop := ∀ c ∈ cs, isBlank c = true

/-- There is no white space at the start and at the end. -/
structure Trimmed (cs : List Char) : Prop where
  first : ∀ c, cs.head? = some c → isBlank c = false
  last : ∀ c, cs.getLast? = some c → isBlank c = false

/-- The text consists of the word and of white space around it, if there is any. -/
def Padded (word cs : List Char) : Prop :=
  ∃ left right, AllBlank left ∧ AllBlank right ∧ cs = left ++ word ++ right

theorem dropBlanks_append (h : AllBlank left) (cs : List Char) :
    dropBlanks (left ++ cs) = dropBlanks cs :=
  List.dropWhile_append_of_pos h

theorem dropBlanks_of_allBlank (h : AllBlank cs) : dropBlanks cs = [] := by
  rw [← List.append_nil cs, dropBlanks_append h]
  exact List.dropWhile_nil

theorem dropBlanks_of_first (h : ∀ c, cs.head? = some c → isBlank c = false) :
    dropBlanks cs = cs := by
  cases cs with
  | nil => exact List.dropWhile_nil
  | cons c cs => exact List.dropWhile_cons_of_neg (by simp [h c List.head?_cons])

theorem trim_of_padded (hword : Trimmed word) (h : Padded word cs) : trim cs = word := by
  obtain ⟨left, right, hleft, hright, rfl⟩ := h
  have hright' : AllBlank right.reverse := fun c hc => hright c (List.mem_reverse.mp hc)
  rw [trim, List.append_assoc, dropBlanks_append hleft]
  cases word with
  | nil => rw [List.nil_append, dropBlanks_of_allBlank hright]; rfl
  | cons c word =>
    have hfirst : dropBlanks (c :: word ++ right) = c :: word ++ right :=
      dropBlanks_of_first hword.first
    have hlast : dropBlanks (c :: word).reverse = (c :: word).reverse := by
      refine dropBlanks_of_first fun d hd => hword.last d ?_
      rwa [List.head?_reverse] at hd
    rw [hfirst, List.reverse_append, dropBlanks_append hright', hlast, List.reverse_reverse]

theorem padded_trim (cs : List Char) : Padded (trim cs) cs := by
  have hblank (cs : List Char) : AllBlank (cs.takeWhile isBlank) :=
    List.all_eq_true.mp List.all_takeWhile
  have hcut (cs : List Char) : cs.takeWhile isBlank ++ dropBlanks cs = cs :=
    List.takeWhile_append_dropWhile
  refine ⟨cs.takeWhile isBlank, ((dropBlanks cs).reverse.takeWhile isBlank).reverse, hblank cs,
    fun c hc => hblank _ c (List.mem_reverse.mp hc), ?_⟩
  rw [List.append_assoc, trim, ← List.reverse_append, hcut, List.reverse_reverse, hcut]

/-- What is left when a text is trimmed is the word that stands in it with white space around. -/
theorem trim_eq_iff (hword : Trimmed word) : trim cs = word ↔ Padded word cs := by
  constructor
  · rintro rfl
    exact padded_trim cs
  · exact trim_of_padded hword

theorem trim_of_allBlank (h : AllBlank cs) : trim cs = [] :=
  trim_of_padded ⟨nofun, nofun⟩ ⟨cs, [], h, nofun, by simp⟩

theorem AllBlank.comma_not_mem (h : AllBlank cs) : ',' ∉ cs :=
  fun hmem => absurd (h _ hmem) (by decide)

theorem Padded.comma_not_mem (h : Padded word cs) (hword : ',' ∉ word) : ',' ∉ cs := by
  obtain ⟨left, right, hleft, hright, rfl⟩ := h
  simp only [List.mem_append, not_or]
  exact ⟨⟨hleft.comma_not_mem, hword⟩, hright.comma_not_mem⟩

theorem entries_append_comma (a b : String) : entries (a ++ "," ++ b) = entries a ++ entries b := by
  have hlist : (a ++ "," ++ b).toList = a.toList ++ ',' :: b.toList := by simp
  rw [entries, hlist, split_append_separator, List.map_append, List.filter_append, List.map_append]
  rfl

theorem entries_intercalate (texts : List String) :
    entries (",".intercalate texts) = texts.flatMap entries := by
  induction texts with
  | nil => decide
  | cons text texts ih =>
    cases texts with
    | nil => simp
    | cons next texts =>
      rw [String.intercalate_cons_cons, entries_append_comma, ih]
      exact List.flatMap_cons.symm

/-- A text without commas has one entry at most, which is what is left when it is trimmed. -/
theorem entries_of_comma_not_mem (h : ',' ∉ text.toList) : entries text =
    if trim text.toList = [] then [] else [String.ofList (trim text.toList)] := by
  rw [entries, split_of_not_mem h, List.map_singleton]
  cases trim text.toList <;> rfl

theorem mem_entries_iff (hcomma : ',' ∉ text.toList) (hname : Trimmed name.toList)
    (hne : name.toList ≠ []) : name ∈ entries text ↔ Padded name.toList text.toList := by
  rw [entries_of_comma_not_mem hcomma, ← trim_eq_iff hname]
  constructor
  · intro hmem
    split at hmem
    · cases hmem
    · rw [List.mem_singleton.mp hmem, String.toList_ofList]
  · intro htrim
    rw [htrim, if_neg hne, String.ofList_toList]
    exact List.mem_singleton_self name

/-- A name that can stand in a list as it is. -/
structure IsPlain (name : String) : Prop where
  notBlank : ¬ AllBlank name.toList
  comma_not_mem : ',' ∉ name.toList
  trimmed : Trimmed name.toList

theorem entries_of_plain (h : IsPlain name) : entries name = [name] := by
  have htrim : trim name.toList = name.toList :=
    trim_of_padded h.trimmed ⟨[], [], nofun, nofun, by simp⟩
  have hne : name.toList ≠ [] := fun hnil => h.notBlank (by rw [hnil]; nofun)
  rw [entries_of_comma_not_mem h.comma_not_mem, htrim, if_neg hne, String.ofList_toList]

theorem entries_intercalate_of_plain {names : List String} (h : ∀ name ∈ names, IsPlain name) :
    entries (",".intercalate names) = names := by
  rw [entries_intercalate]
  induction names with
  | nil => rfl
  | cons name names ih =>
    rw [List.flatMap_cons, entries_of_plain (h name List.mem_cons_self),
      ih fun n hn => h n (List.mem_cons_of_mem name hn), List.singleton_append]

end ScriptAudit.Text
