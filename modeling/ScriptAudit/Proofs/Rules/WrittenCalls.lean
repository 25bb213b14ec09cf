import ScriptAudit.Proofs.Pattern.Alternatives
import ScriptAudit.Proofs.Rules.Quotation

/-! # What a search for a written call finds

A match of a written call is a call, or it is read by an alternative of one part alone: by one of
the function before the last, or by one of the argument behind the first. Wherever such an
alternative of the function occurs, it is what the search finds there. Main statement:
`searchWritten?_callNotation`.
-/
namespace ScriptAudit

namespace Pattern

/-- Whether the pattern can be read from one index of a text to another. -/
def ReadsPiece (p : Pattern) (text : List Char) (i j : Nat) : Prop :=
  ∃ ms, p.Reads (.ofIndex text i) (.ofIndex text j) ms

theorem covers_of_reads_gap {text : List Char} {i : Nat} {t : Cursor} {ms : List Mark}
    (h : gap.Reads (.ofIndex text i) t ms) :
    ∃ j, t = .ofIndex text j ∧ Text.Covers text Text.isSeparator i j := by
  obtain ⟨j, ht, hcovers⟩ := covers_of_reads text gap _ _ _ h
  refine ⟨j, ht, hcovers.mono fun c hc => ?_⟩
  have hadmits : gap.admits c = (CharSet.unionAll [.blank, .one ',', .one '(']).contains c :=
    Bool.or_false _
  rw [← contains_separators, ← hadmits]
  exact hc

end Pattern

namespace Match

/-- Whether the match is a piece of the text that the pattern can read there. -/
def IsReadBy (m : Match) (text : String) (p : Pattern) : Prop :=
  ∃ i j, m.line = Text.lineOf text.toList i ∧ m.text.toList = Text.slice text.toList i j ∧
    p.ReadsPiece text.toList i j

/-- Whether the match splits into a piece that the first pattern reads, separators, and a piece
that the second one reads. -/
def SplitsAsCall (m : Match) (text : String) (function argument : Pattern) : Prop :=
  ∃ i u v j, m.line = Text.lineOf text.toList i ∧
    m.text.toList = Text.slice text.toList i u ++ Text.slice text.toList u v ++
      Text.slice text.toList v j ∧
    function.ReadsPiece text.toList i u ∧ Text.Covers text.toList Text.isSeparator u v ∧
    argument.ReadsPiece text.toList v j

end Match

namespace Pattern

theorem isReadBy_of_mem_search {p : Pattern} {text : String} {maxLines : Nat} {m : Match}
    (h : m ∈ p.search text (.ofText text) maxLines) : m.IsReadBy text p := by
  rw [search_eq] at h
  obtain ⟨n, hn, rfl⟩ := List.mem_map.mp h
  have hoccurs := occursAs_of_mem_taken (List.mem_of_mem_filter hn)
  refine ⟨n.first, n.stop, Cursor.lineAt_ofIndex text n.first, ?_, exists_reads_of_occursAs hoccurs⟩
  have hpiece : (p.matchAs text (.ofText text) n).text =
      (Cursor.ofIndex text.toList n.first).slice n.first n.stop := rfl
  rw [hpiece, Cursor.slice_ofIndex (Nat.le_refl _), String.toList_ofList]

/-- A sequence of a function, separators and an argument reads calls. -/
theorem splitsAsCall_of_isReadBy {last first : List Pattern} {n : Nat} {m : Match} {text : String}
    (h : m.IsReadBy text (seqAll (last ++ gap :: first.map (renumber n)))) :
    m.SplitsAsCall text (seqAll last) (seqAll first) := by
  obtain ⟨i, j, hline, hpiece, ms, hread⟩ := h
  obtain ⟨t, ns, os, hlast, hread⟩ := reads_seqAll_append hread
  obtain ⟨u, rfl, hcovers⟩ := covers_of_reads text.toList _ _ _ _ hlast
  obtain ⟨t, ns', os', hgap, hread⟩ := reads_seqAll_cons hread
  obtain ⟨v, rfl, hseparators⟩ := covers_of_reads_gap hgap
  rw [← renumber_seqAll] at hread
  obtain ⟨j', hj, hcovers'⟩ := covers_of_reads text.toList _ _ _ _ hread
  obtain rfl : j = j' := congrArg Cursor.index hj
  refine ⟨i, u, v, j, hline, ?_, ⟨ns, hlast⟩, hseparators, exists_reads_of_renumber hread⟩
  rw [hpiece, Text.slice_append hcovers.le hseparators.le,
    Text.slice_append (Nat.le_trans hcovers.le hseparators.le) hcovers'.le]

/-- A choice of calls and of patterns that are read alone. -/
theorem splitsAsCall_or_isReadBy {n : Nat} {ended last first rest : List Pattern} {m : Match}
    {text : String}
    (h : m.IsReadBy text
      (altAll (ended ++ seqAll (last ++ gap :: first.map (renumber n)) :: rest.map (renumber n)))) :
    m.SplitsAsCall text (altAll (ended ++ [seqAll last])) (altAll (seqAll first :: rest)) ∨
      ∃ p ∈ ended ++ rest, m.IsReadBy text p := by
  obtain ⟨i, j, hline, hpiece, ms, hread⟩ := h
  obtain ⟨p, hp, hread⟩ := (reads_altAll_iff (by simp)).mp hread
  rcases List.mem_append.mp hp with hp | hp
  · exact Or.inr ⟨p, List.mem_append_left rest hp, i, j, hline, hpiece, ms, hread⟩
  rcases List.mem_cons.mp hp with rfl | hp
  · obtain ⟨i, u, v, j, hline, hpiece, ⟨ns, hlast⟩, hseparators, ns', hfirst⟩ :=
      splitsAsCall_of_isReadBy ⟨i, j, hline, hpiece, ms, hread⟩
    exact Or.inl ⟨i, u, v, j, hline, hpiece,
      ⟨ns, (reads_altAll_iff (by simp)).mpr ⟨_, by simp, hlast⟩⟩, hseparators,
      ns', (reads_altAll_iff (by simp)).mpr ⟨_, by simp, hfirst⟩⟩
  · obtain ⟨q, hq, rfl⟩ := List.mem_map.mp hp
    exact Or.inr ⟨q, List.mem_append_right ended hq, i, j, hline, hpiece,
      exists_reads_of_renumber hread⟩

/-- Where one of the first alternatives occurs, one of them is what the choice is read as. -/
theorem occursAs_altAll_append {ended ps : List Pattern} (hps : ps ≠ []) {text : List Char}
    {n : Occurrence} (h : ∃ p ∈ ended, p.OccursAs text n) :
    ∃ o, (altAll (ended ++ ps)).OccursAs text ⟨n.first, o⟩ ∧
      ∃ p ∈ ended, p.OccursAs text ⟨n.first, o⟩ := by
  obtain ⟨p, hp, hle, hrun⟩ := h
  have hsome : (ended.findSome? fun p => p.run Cursor.finish (.ofIndex text n.first)).isSome = true :=
    List.findSome?_isSome_iff.mpr ⟨p, hp, by rw [hrun]; rfl⟩
  obtain ⟨o, ho⟩ := Option.isSome_iff_exists.mp hsome
  obtain ⟨p', hp', hrun'⟩ := List.exists_of_findSome?_eq_some ho
  refine ⟨o, ⟨hle, ?_⟩, p', hp', hle, hrun'⟩
  rw [run_altAll (by simp [hps]), List.findSome?_append, ho]
  rfl

/-- Every match of a written call is a call or is read by a stray alternative, and the stray
alternatives of the function go before all calls. So if neither part has a bar outside its groups,
every match is a call. -/
theorem searchWritten?_callNotation {d : Dialect} {function argument : String} {p q r : Pattern}
    (hf : read? d function false = some p) (ha : read? d argument false = some q)
    (hflags : setsFlags function = false)
    (hr : read? d (callNotation function argument) false = some r) (text : String)
    (maxLines : Nat) :
    ∃ ps qs ms, alternatives? d function false = some ps ∧
      alternatives? d argument false = some qs ∧
      searchWritten? d (callNotation function argument) text false maxLines = some ms ∧
      (∀ m ∈ ms, m.SplitsAsCall text p q ∨ ∃ p' ∈ ps.dropLast ++ qs.tail, m.IsReadBy text p') ∧
      ∀ n, (∃ p' ∈ ps.dropLast, p'.OccursAs text.toList n) →
        ∃ o, r.OccursAs text.toList ⟨n.first, o⟩ ∧
          ∃ p' ∈ ps.dropLast, p'.OccursAs text.toList ⟨n.first, o⟩ := by
  obtain ⟨ps, hps, rfl⟩ := exists_alternatives hf
  obtain ⟨qs, hqs, rfl⟩ := exists_alternatives ha
  obtain ⟨rs, hrs, rfl⟩ := exists_alternatives hr
  obtain ⟨n, ended, last, first, rest, rfl, rfl, hcall⟩ := alternatives?_callNotation hps hflags hqs
  obtain rfl := Option.some.inj (hrs.symm.trans hcall)
  refine ⟨_, _, _, hps, hqs, by rw [searchWritten?, hr, Option.map_some], fun m hm => ?_, ?_⟩
  · rw [List.dropLast_concat, List.tail_cons]
    exact splitsAsCall_or_isReadBy (isReadBy_of_mem_search hm)
  · rw [List.dropLast_concat]
    exact fun n hn => occursAs_altAll_append (List.cons_ne_nil _ _) hn

/-- The first alternative of the function is read alone, the second one as part of a call. -/
theorem searchWritten?_callNotation_bar :
    read? .standard "a|b" false = some (alt (char 'a') (char 'b')) ∧
      read? .standard "x" false = some (char 'x') ∧
      setsFlags "a|b" = false ∧ (read? .standard (callNotation "a|b" "x") false).isSome = true ∧
      searchWritten? .standard (callNotation "a|b" "x") "a b(x" false 2 =
        some [⟨1, "a", []⟩, ⟨1, "b(x", []⟩] ∧
      ∀ m ∈ [(⟨1, "a", []⟩ : Match), ⟨1, "b(x", []⟩],
        m.SplitsAsCall "a b(x" (alt (char 'a') (char 'b')) (char 'x') ∨
          m.IsReadBy "a b(x" (char 'a') := by
  have hf : read? .standard "a|b" false = some (alt (char 'a') (char 'b')) := by decide +kernel
  have ha : read? .standard "x" false = some (char 'x') := by decide +kernel
  have hflags : setsFlags "a|b" = false := by decide +kernel
  have hsome : (read? .standard (callNotation "a|b" "x") false).isSome = true := by decide +kernel
  have hfound : searchWritten? .standard (callNotation "a|b" "x") "a b(x" false 2 =
      some [⟨1, "a", []⟩, ⟨1, "b(x", []⟩] := by decide +kernel
  obtain ⟨r, hr⟩ := Option.isSome_iff_exists.mp hsome
  obtain ⟨ps, qs, ms, hps, hqs, hms, hmatches, _⟩ :=
    searchWritten?_callNotation hf ha hflags hr "a b(x" 2
  have hfunction : alternatives? .standard "a|b" false = some [char 'a', char 'b'] := by
    decide +kernel
  have hargument : alternatives? .standard "x" false = some [char 'x'] := by decide +kernel
  obtain rfl := Option.some.inj (hps.symm.trans hfunction)
  obtain rfl := Option.some.inj (hqs.symm.trans hargument)
  obtain rfl := Option.some.inj (hms.symm.trans hfound)
  refine ⟨hf, ha, hflags, hsome, hfound, fun m hm => (hmatches m hm).imp_right ?_⟩
  rintro ⟨p, hp, hread⟩
  obtain rfl := List.mem_singleton.mp hp
  exact hread

/-- Behind the bar only the second alternative is part of a call, so the first one is found where
there is no argument at all. -/
theorem not_splitsAsCall_bar :
    ∃ p q, read? .standard "a|b" false = some p ∧ read? .standard "x" false = some q ∧
    setsFlags "a|b" = false ∧ setsFlags "x" = false ∧
    searchWritten? .standard (callNotation "a|b" "x") "a" false 2 = some [⟨1, "a", []⟩] ∧
    ¬(⟨1, "a", []⟩ : Match).SplitsAsCall "a" p q := by
  refine ⟨alt (char 'a') (char 'b'), char 'x', by decide +kernel, by decide +kernel,
    by decide +kernel, by decide +kernel, by decide +kernel, ?_⟩
  rintro ⟨i, u, v, j, _, _, _, _, ms, hread⟩
  obtain ⟨hx, _⟩ := reads_char hread
  exact absurd (List.mem_of_getElem? hx) (by decide)

end Pattern
end ScriptAudit
