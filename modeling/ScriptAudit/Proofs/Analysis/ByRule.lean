import ScriptAudit.Proofs.Analysis.Filter

/-! # Findings rule by rule

The findings on a text that is not empty are those of the rules that apply, one rule after the
other. Main statements: `Script.check_eq_found`, by which a check keeps what the options keep of
them, and `filter_found`, by which they fall apart into the findings of each rule again.
-/
namespace ScriptAudit

/-- The one finding on a text without any character. -/
def Finding.ofEmpty : Finding := ⟨.error, .emptyFile, 1, "the script is empty", -100⟩

/-- Lists under different keys, taken together and asked for one key. -/
theorem filter_flatMap_of_key {α β κ : Type} [DecidableEq κ] {f : α → List β} {key : α → κ}
    {keyOf : β → κ} {xs : List α} (hkey : ∀ x ∈ xs, ∀ y ∈ f x, keyOf y = key x)
    (hnodup : (xs.map key).Nodup) {x : α} (hx : x ∈ xs) :
    (xs.flatMap f).filter (fun y => keyOf y = key x) = f x := by
  induction xs with
  | nil => cases hx
  | cons x' xs ih =>
    obtain ⟨hnew, hnodup⟩ := List.nodup_cons.mp hnodup
    obtain ⟨hhead, htail⟩ := List.forall_mem_cons.mp hkey
    have hother : ∀ z ∈ xs, key z ≠ key x' := fun z hz heq =>
      hnew (heq ▸ List.mem_map_of_mem hz)
    rw [List.flatMap_cons, List.filter_append]
    rcases List.mem_cons.mp hx with rfl | hx
    · have hall : (f x).filter (fun y => keyOf y = key x) = f x :=
        List.filter_eq_self.mpr fun y hy => decide_eq_true (hhead y hy)
      have hnone : (xs.flatMap f).filter (fun y => keyOf y = key x) = [] := by
        rw [List.filter_eq_nil_iff]
        intro y hy
        obtain ⟨z, hz, hy⟩ := List.mem_flatMap.mp hy
        rw [decide_eq_true_iff, htail z hz y hy]
        exact hother z hz
      rw [hall, hnone, List.append_nil]
    · have hnone : (f x').filter (fun y => keyOf y = key x) = [] := by
        rw [List.filter_eq_nil_iff]
        intro y hy
        rw [decide_eq_true_iff, hhead y hy]
        exact (hother x hx).symm
      rw [hnone, List.nil_append, ih htail hnodup hx]

namespace Rule

variable {r : Rule} {s : Source} {f : Finding}

/-- The findings of a rule on a source, none of which there are if it does not apply. -/
def found (r : Rule) (s : Source) : List Finding := (r.findings s).toOption.getD []

theorem findings_eq_found (hr : r ∈ table) (s : Source) : r.findings s = .ok (r.found s) := by
  obtain ⟨fs, hfs⟩ := exists_findings hr s
  rw [found, hfs]
  rfl

theorem found_of_not_appliesTo (h : r.appliesTo s = false) : r.found s = [] := by
  simp [found, findings, h, Except.toOption]

/-- Hit by hit, the findings of a rule that applies. -/
theorem forall₂_found (hr : r ∈ table) (happlies : r.appliesTo s = true) {hits : List Hit}
    (hhits : r.detect s = .ok hits) :
    List.Forall₂ (fun h f => Finding.ofRule r.name h.line h.filling = .ok f) hits (r.found s) := by
  have hfound := findings_eq_found hr s
  have hseverity := severity_of_mem_table r hr
  simp only [findings, happlies, hseverity, hhits, Bool.not_true, Bool.false_eq_true, ne_eq,
    not_true_eq_false, if_false] at hfound
  exact mapM_eq_ok_iff.mp hfound

theorem map_line_found (hr : r ∈ table) (happlies : r.appliesTo s = true) {hits : List Hit}
    (hhits : r.detect s = .ok hits) : (r.found s).map (·.line) = hits.map (·.line) := by
  have hlines : List.Forall₂ (· = ·) (hits.map (·.line)) ((r.found s).map (·.line)) := by
    rw [List.forall₂_map_left_iff, List.forall₂_map_right_iff]
    exact (forall₂_found hr happlies hhits).imp fun _ _ hof => (Finding.eq_of_ofRule hof).2.1.symm
  rw [List.forall₂_eq_eq_eq] at hlines
  exact hlines.symm

theorem exists_hit_of_mem_found (hr : r ∈ table) (hf : f ∈ r.found s) :
    ∃ hits, r.detect s = .ok hits ∧
      ∃ hit ∈ hits, Finding.ofRule r.name hit.line hit.filling = .ok f :=
  ((mem_findings_iff (findings_eq_found hr s)).mp hf).2

theorem rule_of_mem_found (hr : r ∈ table) (hf : f ∈ r.found s) : f.rule = r.name := by
  obtain ⟨_, _, _, _, hof⟩ := exists_hit_of_mem_found hr hf
  exact (Finding.eq_of_ofRule hof).1

theorem severity_of_mem_found (hr : r ∈ table) (hf : f ∈ r.found s) : f.severity = r.severity := by
  obtain ⟨_, _, _, _, hof⟩ := exists_hit_of_mem_found hr hf
  rw [(Finding.eq_of_ofRule hof).2.2, severity_of_mem_table r hr]

theorem nodup_names : (table.map (·.name)).Nodup := by decide

end Rule

namespace Source

/-- All findings on a source, in the order in which they are reported. -/
def found (s : Source) : List Finding :=
  if s.text.isEmpty then [.ofEmpty] else Rule.table.flatMap (·.found s)

theorem found_of_empty {s : Source} (h : s.text = "") : s.found = [.ofEmpty] := by
  rw [found, h]
  rfl

theorem found_of_ne_empty {s : Source} (h : s.text ≠ "") :
    s.found = Rule.table.flatMap (·.found s) := by
  rw [found, if_neg]
  rwa [String.isEmpty_iff]

theorem findings_eq_found (s : Source) : s.findings = .ok s.found := by
  unfold findings found
  split
  · rfl
  · rw [mapM_eq_ok_map fun r hr => Rule.findings_eq_found hr s]
    rfl

theorem filter_found {s : Source} (hne : s.text ≠ "") {r : Rule} (hr : r ∈ Rule.table) :
    s.found.filter (fun f => f.rule = r.name) = r.found s := by
  rw [found_of_ne_empty hne]
  exact filter_flatMap_of_key (fun _ hr' _ => Rule.rule_of_mem_found hr') Rule.nodup_names hr

theorem mem_found_iff {s : Source} (hne : s.text ≠ "") {f : Finding} :
    f ∈ s.found ↔ ∃ r ∈ Rule.table, f ∈ r.found s := by
  rw [found_of_ne_empty hne, List.mem_flatMap]

end Source

/-- A check keeps what the options keep of the findings on the source. -/
theorem Script.check_eq_found (t : Script) : t.check = .ok ⟨t.source, t.options,
    .ofFindings (t.source.found.filter fun f => t.options.keeps f.rule f.severity)⟩ := by
  obtain ⟨fs, hfs, hcheck⟩ := exists_check t.source
  obtain rfl := Except.ok.inj (t.source.findings_eq_found.symm.trans hfs)
  exact hcheck t.options

end ScriptAudit
