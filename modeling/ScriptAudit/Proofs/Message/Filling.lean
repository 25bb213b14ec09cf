import ScriptAudit.Message.Template
import ScriptAudit.Proofs.Pattern.Greedy
import ScriptAudit.Proofs.Pattern.Literal
import ScriptAudit.Proofs.Text.Placeholders

/-! # Templates are filled at their placeholders

The pattern of placeholders is read where a placeholder stands, and captures its name. No placeholder
starts inside another one, so the search takes all of them and cuts the template into gaps and
placeholders. Main statements: `cut_taken`, `mem_names_iff`, `fill_eq_ok_iff` and
`fill_eq_error_iff`, by which the two passes do what is to be done with a text that has placeholders.
-/
namespace ScriptAudit
open Text Pattern

theorem Filling.value?_eq_some_iff {f : Filling} {name value : String} : f.value? name = some value ↔
    f = message value ∧ name = "message" ∨ f = link value ∧ name = "link" := by
  cases f <;> simp [value?, and_comm]

namespace Template

/-- The characters of names. -/
def letters : CharSet := .union (.range 'a' 'z') (.one '_')

theorem contains_letters {c : Char} : letters.contains c = true ↔ 'a' ≤ c ∧ c ≤ 'z' ∨ c = '_' := by
  simp [letters, CharSet.contains]

variable {template : String} {text : List Char} {i : Nat} {o : Outcome} {m : Occurrence}
variable {ms : List Occurrence} {name : String} {f : Filling}

/-- A placeholder is read up to the first character that does not belong to its name. -/
theorem run_placeholder (text : List Char) (i : Nat) :
    placeholder.run Cursor.finish (.ofIndex text i) =
      if text[i]? = some '\x7b' ∧ i + 1 < runEnd letters.contains text (i + 1) ∧
          text[runEnd letters.contains text (i + 1)]? = some '\x7d' then
        some ⟨runEnd letters.contains text (i + 1) + 1,
          [.opened 1 (i + 1), .closed 1 (runEnd letters.contains text (i + 1))]⟩
      else none := by
  have hshut : ∀ j, i + 1 < j → j < runEnd letters.contains text (i + 1) →
      (((char '\x7d').run Cursor.finish (.ofIndex text j)).map
        (·.passing (.closed 1 (Cursor.ofIndex text j).index))) = none := by
    intro j hij hj
    obtain ⟨c, hc, hletter⟩ :=
      (covers_runEnd letters.contains text (i + 1)).passes j (Nat.le_of_lt hij) hj
    have hne : c ≠ '\x7d' := by
      rintro rfl
      exact absurd hletter (by decide)
    simp [run_char, hc, hne]
  have hplus := run_plus_set_of_shut (k := fun t =>
    ((char '\x7d').run Cursor.finish t).map (·.passing (.closed 1 t.index))) hshut
  have hseq : placeholder.run Cursor.finish (.ofIndex text i) =
      (char '\x7b').run (fun s => ((plus true (set letters)).run (fun t =>
        ((char '\x7d').run Cursor.finish t).map (·.passing (.closed 1 t.index))) s).map
          (·.passing (.opened 1 s.index))) (.ofIndex text i) := rfl
  rw [hseq, run_char]
  by_cases hopen : text[i]? = some '\x7b'
  · rw [if_pos hopen, hplus, run_char]
    by_cases hlt : i + 1 < runEnd letters.contains text (i + 1)
    · by_cases hclose : text[runEnd letters.contains text (i + 1)]? = some '\x7d'
      · rw [if_pos hlt, if_pos hclose, if_pos ⟨hopen, hlt, hclose⟩]
        rfl
      · simp [hclose]
    · simp [hlt]
  · simp [hopen]

/-- The outcome of reading a placeholder of this name. -/
def outcomeOf (name : String) (i : Nat) : Outcome :=
  ⟨i + (braced name).length, [.opened 1 (i + 1), .closed 1 (i + 1 + name.toList.length)]⟩

theorem run_placeholder_iff : placeholder.run Cursor.finish (.ofIndex text i) = some o ↔
    ∃ name behind, IsLowerName name ∧ text.drop i = braced name ++ behind ∧ o = outcomeOf name i := by
  rw [run_placeholder]
  constructor
  · intro h
    split at h
    · next hread =>
      obtain ⟨hopen, hlt, hclose⟩ := hread
      obtain rfl := Option.some.inj h
      have hle : runEnd letters.contains text (i + 1) ≤ text.length :=
        Nat.le_of_lt (List.getElem?_eq_some_iff.mp hclose).1
      have hlength := length_slice (i := i + 1) hle
      refine ⟨String.ofList (slice text (i + 1) (runEnd letters.contains text (i + 1))),
        text.drop (runEnd letters.contains text (i + 1) + 1), ⟨?_, ?_⟩, ?_, ?_⟩
      · rw [String.toList_ofList]
        exact List.ne_nil_of_length_pos (by omega)
      · intro c hc
        rw [String.toList_ofList] at hc
        exact contains_letters.mp (test_of_mem_slice_runEnd hc)
      · rw [drop_eq_cons hopen, ← slice_append_drop (Nat.le_of_lt hlt), drop_eq_cons hclose]
        simp [braced]
      · simp only [outcomeOf, braced, String.toList_ofList, List.length_cons, List.length_append,
          List.length_nil, hlength, Outcome.mk.injEq, List.cons.injEq, Mark.closed.injEq, true_and,
          and_true]
        omega
    · cases h
  · rintro ⟨name, behind, hname, hdrop, rfl⟩
    have hopen : text[i]? = some '\x7b' := by
      rw [← List.head?_drop, hdrop]
      rfl
    have hinner : text.drop (i + 1) = name.toList ++ '\x7d' :: behind := by
      rw [← List.drop_drop, hdrop]
      simp [braced]
    have hend : runEnd letters.contains text (i + 1) = i + 1 + name.toList.length :=
      runEnd_of_append hinner (fun c hc => contains_letters.mpr (hname.lower c hc)) (by decide)
    have hclose : text[i + 1 + name.toList.length]? = some '\x7d' := by
      rw [← List.head?_drop, drop_of_drop_eq_append hinner]
      rfl
    have hpos := List.length_pos_iff.mpr hname.ne_nil
    rw [hend, if_pos ⟨hopen, by omega, hclose⟩]
    simp only [outcomeOf, braced, List.length_cons, List.length_append, List.length_nil]
    congr 2
    omega

theorem nameAt_outcomeOf {behind : List Char} (h : template.toList.drop i = braced name ++ behind) :
    nameAt template ⟨i, outcomeOf name i⟩ = name := by
  have hinner : template.toList.drop (i + 1) = name.toList ++ '\x7d' :: behind := by
    rw [← List.drop_drop, h]
    simp [braced]
  have hcaptured : Occurrence.captured ⟨i, outcomeOf name i⟩ template.toList = name.toList :=
    slice_of_drop_eq_append hinner
  rw [nameAt, hcaptured, String.ofList_toList]

/-- The occurrences cut the template behind an index into gaps and placeholders. -/
inductive Cut (template : String) : Nat → List Occurrence → Prop where
  | done {i : Nat} (hgap : Bare (template.toList.drop i)) : Cut template i []
  | next {i : Nat} {m : Occurrence} {ms : List Occurrence}
      (hgap : Bare (slice template.toList i m.first)) (hname : IsLowerName (nameAt template m))
      (heq : template.toList.drop i = slice template.toList i m.first ++
        (braced (nameAt template m) ++ template.toList.drop m.stop))
      (h : Cut template m.stop ms) : Cut template i (m :: ms)

/-- Every placeholder is taken, for none starts inside another one. -/
theorem exists_taken {before behind : List Char} (hname : IsLowerName name)
    (h : template.toList = before ++ (braced name ++ behind)) :
    ∃ m ∈ placeholder.taken template.toList, m.first = before.length := by
  have hdrop : template.toList.drop before.length = braced name ++ behind := by
    rw [h, List.drop_left]
  have hoccurs : placeholder.OccursAs template.toList ⟨before.length, outcomeOf name before.length⟩ :=
    ⟨by rw [h]; simp, run_placeholder_iff.mpr ⟨name, behind, hname, hdrop, rfl⟩⟩
  have hreads : before.length < Occurrence.stop ⟨before.length, outcomeOf name before.length⟩ := by
    simp [Occurrence.stop, outcomeOf, braced]
  rcases mem_taken_or_covered hoccurs hreads with hm | ⟨m, hm, hafter, hbefore⟩
  · exact ⟨_, hm, rfl⟩
  · obtain ⟨other, rest, hother, hrest, houtcome⟩ :=
      run_placeholder_iff.mp (occursAs_of_mem_taken hm).2
    have hcut : before ++ (braced name ++ behind) =
        template.toList.take m.first ++ (braced other ++ rest) := by
      rw [← h, ← hrest, List.take_append_drop]
    have hstop : m.stop = m.first + (braced other).length := congrArg Outcome.stop houtcome
    have hlength : (template.toList.take m.first).length = m.first :=
      List.length_take_of_le (occursAs_of_mem_taken hm).1
    dsimp only at hafter hbefore
    rcases braced_apart hname hother hcut with ⟨hsame, _⟩ | hprefix | hprefix
    · rw [hsame, hlength] at hafter
      exact absurd hafter (Nat.lt_irrefl _)
    · have hle := hprefix.length_le
      rw [List.length_append, hlength] at hle
      omega
    · have hle := hprefix.length_le
      rw [List.length_append, hlength] at hle
      omega

/-- A placeholder in a piece of the text is one of the text. -/
theorem exists_eq_of_holds_slice {j : Nat} (h : Holds name (slice text i j)) :
    ∃ before behind, text = before ++ (braced name ++ behind) ∧ i ≤ before.length ∧
      before.length < j := by
  obtain ⟨before, behind, heq⟩ := h.exists_eq
  have hwhole : text = text.take i ++ (slice text i j ++ (text.drop i).drop (j - i)) := by
    rw [slice, List.take_append_drop, List.take_append_drop]
  have hlength : (slice text i j).length ≤ min (j - i) (text.length - i) := by
    rw [slice, List.length_take, List.length_drop]
  rw [heq] at hwhole hlength
  simp only [braced, List.length_append, List.length_cons, List.length_nil] at hlength
  refine ⟨text.take i ++ before, behind ++ (text.drop i).drop (j - i), ?_, ?_, ?_⟩
  · refine hwhole.trans ?_
    simp only [List.append_assoc]
  · rw [List.length_append, List.length_take_of_le (by omega)]
    exact Nat.le_add_right i _
  · rw [List.length_append, List.length_take_of_le (by omega)]
    omega

theorem cut_of_taken (hi : ∀ m ∈ ms, i ≤ m.first)
    (hoccurs : ∀ m ∈ ms, placeholder.OccursAs template.toList m)
    (hpair : ms.Pairwise fun m n => m.stop ≤ n.first)
    (hall : ∀ name before behind, IsLowerName name →
      template.toList = before ++ (braced name ++ behind) → i ≤ before.length →
        ∃ m ∈ ms, m.first = before.length) : Cut template i ms := by
  induction ms generalizing i with
  | nil =>
    refine .done fun name hholds => ?_
    have hslice : template.toList.drop i = slice template.toList i template.toList.length := by
      rw [slice, List.take_of_length_le (by simp)]
    rw [hslice] at hholds
    obtain ⟨before, behind, heq, hle, _⟩ := exists_eq_of_holds_slice hholds
    obtain ⟨m, hm, _⟩ := hall name before behind hholds.isName heq hle
    cases hm
  | cons m ms ih =>
    obtain ⟨hhead, htail⟩ := List.pairwise_cons.mp hpair
    obtain ⟨first, outcome⟩ := m
    have hfirst : i ≤ first := hi _ List.mem_cons_self
    obtain ⟨name, behind, hname, hdrop, houtcome⟩ :=
      run_placeholder_iff.mp (hoccurs _ List.mem_cons_self).2
    dsimp only at hdrop houtcome
    subst houtcome
    have hstop : first < first + (braced name).length := by simp [braced]
    have hnameAt := nameAt_outcomeOf hdrop
    refine .next (fun other hholds => ?_) (by rwa [hnameAt]) ?_ (ih hhead
      (fun n hn => hoccurs n (List.mem_cons_of_mem _ hn)) htail ?_)
    · obtain ⟨before, rest, heq, hle, hlt⟩ := exists_eq_of_holds_slice hholds
      obtain ⟨n, hn, hsame⟩ := hall other before rest hholds.isName heq hle
      rcases List.mem_cons.mp hn with rfl | hn
      · exact absurd hsame (Nat.ne_of_gt hlt)
      · have hafter : first + (braced name).length ≤ n.first := hhead n hn
        dsimp only at hlt
        omega
    · rw [hnameAt, ← slice_append_drop hfirst, hdrop]
      exact congrArg (fun rest => _ ++ (braced name ++ rest)) (drop_of_drop_eq_append hdrop).symm
    · intro other before rest hother heq hle
      have hle' : first + (braced name).length ≤ before.length := hle
      obtain ⟨n, hn, hsame⟩ := hall other before rest hother heq (by omega)
      rcases List.mem_cons.mp hn with rfl | hn
      · dsimp only at hsame
        omega
      · exact ⟨n, hn, hsame⟩

theorem cut_taken (template : String) : Cut template 0 (placeholder.taken template.toList) :=
  cut_of_taken (fun _ _ => Nat.zero_le _) (fun _ => occursAs_of_mem_taken) (pairwise_taken _ _)
    fun _ _ _ hname heq _ => exists_taken hname heq

namespace Cut

theorem mem_map_iff (h : Cut template i ms) :
    name ∈ ms.map (nameAt template) ↔ Holds name (template.toList.drop i) := by
  induction h with
  | done hgap => exact iff_of_false List.not_mem_nil (hgap name)
  | next hgap hname heq _ ih =>
    rw [List.map_cons, List.mem_cons, ih, heq, holds_gap_append_iff hgap hname]

/-- If each name has a value, the placeholders are replaced. -/
theorem replaced (h : Cut template i ms)
    (hvalues : ∀ name ∈ ms.map (nameAt template), f.value? name ≠ none) :
    Replaced f.value? (template.toList.drop i) (Occurrence.replaceFrom template.toList
      (fun m => ((f.value? (nameAt template m)).getD "").toList) i ms) := by
  induction h with
  | done hgap => exact .done hgap
  | @next i m ms hgap hname heq _ ih =>
    obtain ⟨hvalue, hothers⟩ := List.forall_mem_cons.mp hvalues
    obtain ⟨value, hvalue⟩ := Option.ne_none_iff_exists'.mp hvalue
    rw [heq, Occurrence.replaceFrom, hvalue]
    exact .next hgap hname hvalue (ih hothers)

theorem firstMissing (h : Cut template i ms)
    (hfind : (ms.map (nameAt template)).find? (fun name => (f.value? name).isNone) = some name) :
    FirstMissing f.value? (template.toList.drop i) name := by
  induction h with
  | done => cases hfind
  | @next i m ms hgap hname heq _ ih =>
    rw [heq]
    rw [List.map_cons, List.find?_cons] at hfind
    cases hvalue : f.value? (nameAt template m) with
    | none =>
      rw [hvalue] at hfind
      obtain rfl := Option.some.inj hfind
      exact .of_gap hgap hname hvalue _
    | some value =>
      rw [hvalue] at hfind
      exact (ih hfind).gap_append hgap hname (by rw [hvalue]; nofun)

end Cut

theorem mem_names_iff : name ∈ names template ↔ Holds name template.toList :=
  (cut_taken template).mem_map_iff

theorem replaced_of_fill {text : String} (h : fill template f = .ok text) :
    Replaced f.value? template.toList text.toList := by
  unfold fill at h
  split at h
  · cases h
  · next hfind =>
    obtain rfl := Except.ok.inj h
    rw [replace, String.toList_ofList]
    refine (cut_taken template).replaced fun name hname hnone => ?_
    have hsome := List.find?_eq_none.mp hfind name hname
    rw [hnone] at hsome
    exact hsome rfl

theorem firstMissing_of_fill (h : fill template f = .error name) :
    FirstMissing f.value? template.toList name := by
  unfold fill at h
  split at h
  · next hfind =>
    obtain rfl := Except.error.inj h
    exact (cut_taken template).firstMissing hfind
  · cases h

/-- A template is filled exactly when its placeholders can be replaced, and this is the result. -/
theorem fill_eq_ok_iff {text : String} :
    fill template f = .ok text ↔ Replaced f.value? template.toList text.toList := by
  refine ⟨replaced_of_fill, fun h => ?_⟩
  cases hfill : fill template f with
  | ok text' => rw [String.toList_inj.mp ((replaced_of_fill hfill).unique h)]
  | error name => exact absurd (firstMissing_of_fill hfill) h.not_firstMissing

theorem fill_eq_error_iff :
    fill template f = .error name ↔ FirstMissing f.value? template.toList name := by
  refine ⟨firstMissing_of_fill, fun h => ?_⟩
  cases hfill : fill template f with
  | ok text => exact absurd h (replaced_of_fill hfill).not_firstMissing
  | error name' => rw [h.unique (firstMissing_of_fill hfill)]

end Template
end ScriptAudit
