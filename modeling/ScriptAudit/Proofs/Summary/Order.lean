import ScriptAudit.Proofs.File.Canonical
import ScriptAudit.Proofs.Sorting
import ScriptAudit.Proofs.Summary.Totals

/-! # Summaries do not depend on the order of scripts

The totals of scripts are sums, so that their order does not matter. The scores are listed in the
order of the scripts, but when they are grouped by score the paths of a group are sorted. Paths that
are equal in the order of paths keep the order in which they were, which is not to be seen when they
are displayed alike; different resolved paths are never equal. Main statements:
`statusLine_ofScripts_perm`, `exitCode_ofScripts_perm` and `grouped_perm_of_displaysAlike`.
-/
namespace ScriptAudit

namespace ScoreList

variable {xs ys : ScoreList}

theorem distinct_perm (h : xs.Perm ys) : xs.distinct = ys.distinct := by
  have hsorted : (xs.map (·.2)).mergeSort (fun a b => b ≤ a) =
      (ys.map (·.2)).mergeSort fun a b => b ≤ a := by
    refine mergeSort_perm_eq (fun a b c hab hbc => ?_) (fun a b => ?_) (h.map _)
      fun a _ b _ hab hba => ?_
    all_goals simp only [decide_eq_true_eq, Bool.or_eq_true] at *
    all_goals omega
  rw [distinct, distinct, hsorted]

/-- Paths that are equal in the order of paths are displayed alike. -/
def DisplaysAlike (xs : ScoreList) : Prop :=
  ∀ a ∈ xs, ∀ b ∈ xs, a.1.components = b.1.components → a.1.display = b.1.display

/-- Resolved paths that are equal in the order of paths are the same. -/
theorem displaysAlike_of_isResolved (h : ∀ entry ∈ xs, entry.1.IsResolved) :
    xs.DisplaysAlike := by
  intro a ha b hb hcomponents
  obtain ⟨hab, hba⟩ := Path.le_and_le_iff.mpr hcomponents
  rw [(h a ha).le_antisymm (h b hb) hab hba]

theorem exists_of_mem_withScore {score : Int} {p : Path} (h : p ∈ xs.withScore score) :
    ∃ entry ∈ xs, entry.1 = p := by
  rw [withScore, List.mem_mergeSort] at h
  obtain ⟨entry, hentry, rfl⟩ := List.mem_map.mp h
  exact ⟨entry, List.mem_of_mem_filter hentry, rfl⟩

/-- In which order the scripts are listed makes no difference, but for equal paths. -/
theorem components_withScore_perm (h : xs.Perm ys) (score : Int) :
    (xs.withScore score).map Path.components = (ys.withScore score).map Path.components := by
  rw [withScore, withScore, List.map_mergeSort fun p _ q _ => p.le_eq q,
    List.map_mergeSort fun p _ q _ => p.le_eq q]
  exact mergeSort_perm_eq Path.componentsLe_trans Path.componentsLe_total
    (((h.filter _).map _).map _) fun _ _ _ _ => Path.componentsLe_antisymm

theorem block_perm (h : xs.Perm ys) (hdisplay : xs.DisplaysAlike) (colors : Bool) (score : Int) :
    xs.block colors score = ys.block colors score := by
  have hcomponents := components_withScore_perm h score
  have hlength : (xs.withScore score).length = (ys.withScore score).length := by
    simpa using congrArg List.length hcomponents
  have hdisplayed : (xs.withScore score).map (fun p => "\n  " ++ p.display) =
      (ys.withScore score).map fun p => "\n  " ++ p.display := by
    refine map_eq_map_of_map_eq_map hcomponents fun p hp q hq hpq => ?_
    obtain ⟨a, ha, rfl⟩ := exists_of_mem_withScore hp
    obtain ⟨b, hb, rfl⟩ := exists_of_mem_withScore hq
    rw [hdisplay a ha b (h.mem_iff.mpr hb) hpq]
  simp only [block, hdisplayed, hlength]

theorem grouped_perm_of_displaysAlike (h : xs.Perm ys) (hdisplay : xs.DisplaysAlike)
    (colors : Bool) : xs.grouped colors = ys.grouped colors := by
  have hblock : xs.block colors = ys.block colors := funext (block_perm h hdisplay colors)
  rw [grouped, grouped, distinct_perm h, hblock]

theorem grouped_perm (h : xs.Perm ys) (hpaths : ∀ entry ∈ xs, entry.1.IsResolved)
    (colors : Bool) : xs.grouped colors = ys.grouped colors :=
  grouped_perm_of_displaysAlike h (displaysAlike_of_isResolved hpaths) colors

end ScoreList

namespace Summary

variable {ts us : List Script}

theorem counts_ofScripts_perm (h : ts.Perm us) : (ofScripts ts).counts = (ofScripts us).counts := by
  have hcomm (t u w : Tally) : (t.merge u).merge w = (t.merge w).merge u := by
    rw [Tally.merge_assoc, Tally.merge_comm u w, ← Tally.merge_assoc]
  unfold ofScripts
  rw [counts_foldl_add, counts_foldl_add]
  exact (h.map _).foldl_eq' (fun u _ w _ t => hcomm t u w) _

theorem statusLine_ofScripts_perm (h : ts.Perm us) (colors : Bool) :
    (ofScripts ts).statusLine colors = (ofScripts us).statusLine colors := by
  unfold statusLine lineOf
  rw [counts_ofScripts_perm h, scripts_ofScripts, scripts_ofScripts, withIssues_ofScripts,
    withIssues_ofScripts, h.length_eq, h.countP_eq]

theorem exitCode_ofScripts_perm (h : ts.Perm us) (strict : Bool) :
    (ofScripts ts).exitCode strict = (ofScripts us).exitCode strict := by
  unfold exitCode
  rw [counts_ofScripts_perm h]

theorem scores_ofScripts_perm (h : ts.Perm us) :
    (ofScripts ts).scores.Perm (ofScripts us).scores := by
  rw [scores_ofScripts, scores_ofScripts]
  exact h.map _

end Summary
end ScriptAudit
