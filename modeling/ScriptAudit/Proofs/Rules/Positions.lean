import ScriptAudit.Proofs.Pattern.Matches
import ScriptAudit.Proofs.Rules.Forms
import ScriptAudit.Proofs.Text.Split

/-! # The lines of hits

A rule reports its hits in the order of the lines, and on lines that the text has. Main statement:
`Rule.inOrder_detect`.
-/
namespace ScriptAudit

namespace Text

/-- Line numbers of a text from its start to its end. -/
structure InOrder (cs : List Char) (lines : List Nat) : Prop where
  pairwise : lines.Pairwise (· ≤ ·)
  pos : ∀ line ∈ lines, 1 ≤ line
  le : ∀ line ∈ lines, line ≤ cs.count '\n' + 1

variable {cs : List Char} {lines : List Nat}

theorem inOrder_nil (cs : List Char) : InOrder cs [] := ⟨.nil, by simp, by simp⟩

theorem inOrder_singleton {line : Nat} (hpos : 1 ≤ line) (hle : line ≤ cs.count '\n' + 1) :
    InOrder cs [line] :=
  ⟨List.pairwise_singleton _ _, by simpa using hpos, by simpa using hle⟩

theorem InOrder.sublist (h : InOrder cs lines) {lines' : List Nat} (hsub : lines'.Sublist lines) :
    InOrder cs lines' where
  pairwise := h.pairwise.sublist hsub
  pos line hline := h.pos line (hsub.subset hline)
  le line hline := h.le line (hsub.subset hline)

/-- The lines of the characters of a text, one after the other. -/
theorem inOrder_map_lineOf (cs : List Char) {places : List Nat} (h : places.Pairwise (· ≤ ·)) :
    InOrder cs (places.map (lineOf cs)) where
  pairwise := List.pairwise_map.mpr (h.imp fun hle => lineOf_le_lineOf cs hle)
  pos := by
    intro line hline
    obtain ⟨i, _, rfl⟩ := List.mem_map.mp hline
    exact Nat.le_add_left 1 _
  le := by
    intro line hline
    obtain ⟨i, _, rfl⟩ := List.mem_map.mp hline
    exact lineOf_le cs i

theorem length_lines_le (cs : List Char) : (Text.lines cs).length ≤ cs.count '\n' + 1 := by
  have hlast : ((split '\n' cs).getLast?.toList.filter fun line => !line.isEmpty).length ≤ 1 :=
    Nat.le_trans (List.length_filter_le _ _) Option.length_toList_le
  have hpieces := length_split '\n' cs
  unfold Text.lines
  rw [List.length_append, List.length_map, List.length_dropLast]
  omega

end Text

namespace Pattern

theorem sublist_places (p : Pattern) (text : List Char) :
    ((takeMatches (p.outcomes text)).map Prod.fst).Sublist (Cursor.places text) := by
  have houtcomes : (p.outcomes text).map Prod.fst = Cursor.places text := by
    rw [outcomes_eq, List.map_map]
    exact List.map_id _
  rw [takeMatches_eq, ← houtcomes]
  exact sublist_takeFrom _ none

/-- The lines of the matches are among those of all characters, in the same order. -/
theorem sublist_lines_search (p : Pattern) (text : String) (maxLines : Nat) :
    ((p.search text (.ofText text) maxLines).map (·.line)).Sublist
      ((List.range (text.toList.length + 1)).map (Text.lineOf text.toList)) := by
  have hrange : (Cursor.places text.toList).map (fun c => (LineIndex.ofText text).lineAt c.offset) =
      (List.range (text.toList.length + 1)).map (Text.lineOf text.toList) := by
    rw [Cursor.places_eq_map_range, List.map_map]
    exact List.map_congr_left fun i _ => Cursor.lineAt_ofIndex text i
  rw [← hrange]
  refine (List.filter_sublist.map _).trans ?_
  have hplaces := (p.sublist_places text.toList).map fun c =>
    (LineIndex.ofText text).lineAt c.offset
  rw [List.map_map] at hplaces ⊢
  exact hplaces

end Pattern

/-- The matches of a search come in the order of the text. -/
theorem Source.inOrder_search (s : Source) (p : Pattern) (maxLines : Nat) :
    Text.InOrder s.chars ((s.search p maxLines).map (·.line)) :=
  (Text.inOrder_map_lineOf s.chars (List.pairwise_lt_range.imp Nat.le_of_lt)).sublist
    (p.sublist_lines_search s.text maxLines)

namespace Rules

theorem firstMixture_bounds {tabs spaces : Bool} {n k : Nat} {ls : List (List Char)}
    (h : firstMixture tabs spaces n ls = some k) : n ≤ k ∧ k < n + ls.length := by
  induction ls generalizing tabs spaces n with
  | nil => cases h
  | cons line rest ih =>
    unfold firstMixture at h
    simp only at h
    rw [List.length_cons]
    split at h
    · obtain rfl := Option.some.inj h
      omega
    · have := ih h
      omega

theorem inOrder_mixedTabsSpaces (s : Source) :
    Text.InOrder s.chars ((firstMixture false false 1 (Text.lines s.chars)).toList) := by
  cases h : firstMixture false false 1 (Text.lines s.chars) with
  | none => exact Text.inOrder_nil _
  | some k =>
    have hbounds := firstMixture_bounds h
    have hlines := Text.length_lines_le s.chars
    exact Text.inOrder_singleton hbounds.1 (by omega)

end Rules

namespace Rule

variable {r : Rule} {s : Source} {hits : List Hit}

theorem inOrder_detect (hr : r ∈ table) (hhits : r.detect s = .ok hits) :
    Text.InOrder s.chars (hits.map (·.line)) := by
  cases form_of_mem_table hr with
  | once test _ hdetect =>
    obtain rfl := Except.ok.inj ((hdetect s).symm.trans hhits)
    unfold Source.firstLineUnless
    split
    · exact Text.inOrder_nil _
    · exact Text.inOrder_singleton (Nat.le_refl 1) (Nat.le_add_left 1 _)
  | perMatch p maxLines silent hit hline _ _ hdetect =>
    obtain rfl := Except.ok.inj ((hdetect s).symm.trans hhits)
    split
    · exact Text.inOrder_nil _
    · have hlines : ((s.search p maxLines).map hit).map (·.line) =
          (s.search p maxLines).map (·.line) := by
        rw [List.map_map]
        exact List.map_congr_left fun m _ => hline m
      rw [hlines]
      exact s.inOrder_search p maxLines
  | indentation _ hdetect =>
    rw [hdetect] at hhits
    obtain rfl := Except.ok.inj hhits
    rw [List.map_map]
    simpa [Function.comp_def, Hit.at] using Rules.inOrder_mixedTabsSpaces s

end Rule
end ScriptAudit
