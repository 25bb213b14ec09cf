import ScriptAudit.Proofs.Summary.Order

/-! # Scripts grouped by score

The scores that occur are sorted and repetitions are removed, and behind each of them stand the
paths of the scripts that have it, sorted in turn. So every script is in exactly one group, and
paths that are equal in the order of paths stay in the order in which they were listed. Main
statements: `pairwise_distinct`, `groups_perm` and `grouped_partitions`.
-/
namespace ScriptAudit

/-- Scripts that share a score. -/
structure ScoreGroup where
  score : Int
  paths : List Path
  deriving DecidableEq, Repr

/-- The number of the scripts with their score, and each path on a line of its own. -/
def ScoreGroup.written (g : ScoreGroup) (colors : Bool) : String :=
  s!"{g.paths.length} scripts with score {Score.format g.score colors}:" ++
    String.join (g.paths.map fun p => "\n  " ++ p.display)

namespace ScoreList

variable {scores : ScoreList}

/-- The paths of the scripts with the given score, in the order in which they are listed. -/
def pathsOf (scores : ScoreList) (score : Int) : List Path :=
  (scores.filter (·.2 = score)).map (·.1)

/-- The scripts fall into the groups: each score that occurs has one group, the best score first,
with the paths of the scripts that have it, in the order of paths. -/
structure FallsInto (scores : ScoreList) (groups : List ScoreGroup) : Prop where
  decreasing : groups.Pairwise fun g h => h.score < g.score
  occurs : ∀ score, (∃ g ∈ groups, g.score = score) ↔ ∃ entry ∈ scores, entry.2 = score
  paths : ∀ g ∈ groups, g.paths.Perm (scores.pathsOf g.score)
  sorted : ∀ g ∈ groups, g.paths.Pairwise fun p q => p.le q = true
  /-- Paths that are equal in the order of paths stay as they are listed. -/
  stable : ∀ g ∈ groups, ∀ p : Path, g.paths.filter (·.components = p.components) =
    (scores.pathsOf g.score).filter (·.components = p.components)
  count : (groups.map (·.paths.length)).sum = scores.length
  /-- No script is lost or repeated. -/
  perm : (groups.flatMap fun g => g.paths.map (·, g.score)).Perm scores

theorem mem_distinct_iff {score : Int} :
    score ∈ scores.distinct ↔ ∃ entry ∈ scores, entry.2 = score := by
  rw [distinct, mem_eraseReps_iff, List.mem_mergeSort, List.mem_map]

theorem pairwise_distinct (scores : ScoreList) : scores.distinct.Pairwise fun a b => b < a := by
  have hsorted : ((scores.map (·.2)).mergeSort fun a b => b ≤ a).Pairwise
      fun a b => decide (b ≤ a) = true := by
    refine List.pairwise_mergeSort (fun a b c hab hbc => ?_) (fun a b => ?_) _
    all_goals simp only [decide_eq_true_eq, Bool.or_eq_true] at *
    all_goals omega
  exact pairwise_eraseReps (hsorted.imp of_decide_eq_true)

theorem withScore_perm (scores : ScoreList) (score : Int) :
    (scores.withScore score).Perm (scores.pathsOf score) :=
  List.mergeSort_perm _ _

theorem filter_withScore (scores : ScoreList) (score : Int) (p : Path) :
    (scores.withScore score).filter (·.components = p.components) =
      (scores.pathsOf score).filter (·.components = p.components) := by
  refine filter_mergeSort_of_equal Path.le_trans Path.le_total (fun q r hq hr => ?_) _
  have hcomponents := (of_decide_eq_true hq).trans (of_decide_eq_true hr).symm
  exact (Path.le_and_le_iff.mpr hcomponents).1

/-- A group holds the entries with its score. -/
theorem map_withScore_perm (scores : ScoreList) (score : Int) :
    ((scores.withScore score).map (·, score)).Perm (scores.filter (·.2 = score)) := by
  have hentries : (scores.pathsOf score).map (·, score) = scores.filter (·.2 = score) := by
    rw [pathsOf, List.map_map]
    refine (List.map_congr_left fun entry hentry => ?_).trans (List.map_id _)
    exact Prod.ext rfl (of_decide_eq_true (List.mem_filter.mp hentry).2).symm
  rw [← hentries]
  exact (scores.withScore_perm score).map _

/-- The groups of the scores that occur. -/
def groups (scores : ScoreList) : List ScoreGroup :=
  scores.distinct.map fun score => ⟨score, scores.withScore score⟩

theorem grouped_eq (scores : ScoreList) (colors : Bool) :
    scores.grouped colors = "\n".intercalate (scores.groups.map (·.written colors)) := by
  rw [grouped, groups, List.map_map]
  rfl

theorem groups_perm (scores : ScoreList) :
    (scores.groups.flatMap fun g => g.paths.map (·, g.score)).Perm scores := by
  have hnodup : scores.distinct.Nodup := (pairwise_distinct scores).imp fun h => (Int.ne_of_lt h).symm
  have hmem : ∀ entry ∈ scores, entry.2 ∈ scores.distinct := fun entry hentry =>
    mem_distinct_iff.mpr ⟨entry, hentry, rfl⟩
  rw [groups, List.flatMap_map]
  exact (List.Perm.flatMap_left _ fun score _ => scores.map_withScore_perm score).trans
    (flatMap_filter_perm hnodup hmem)

theorem fallsInto_groups (scores : ScoreList) : scores.FallsInto scores.groups := by
  have hgroup : ∀ g ∈ scores.groups, g.paths = scores.withScore g.score := by
    intro g hg
    obtain ⟨score, _, rfl⟩ := List.mem_map.mp hg
    rfl
  have hperm := scores.groups_perm
  constructor
  case decreasing => exact List.pairwise_map.mpr (pairwise_distinct scores)
  case occurs =>
    intro score
    rw [← mem_distinct_iff, groups]
    simp
  case paths =>
    intro g hg
    rw [hgroup g hg]
    exact scores.withScore_perm g.score
  case sorted =>
    intro g hg
    rw [hgroup g hg]
    exact List.pairwise_mergeSort Path.le_trans Path.le_total _
  case stable =>
    intro g hg p
    rw [hgroup g hg]
    exact scores.filter_withScore g.score p
  case count =>
    rw [← hperm.length_eq, List.length_flatMap]
    simp only [List.length_map]
  case perm => exact hperm

/-- The scores are printed group by group, the best one first. Each script is in the group of its
score, and how the scripts are ordered does not matter if equal paths are displayed alike. -/
theorem grouped_partitions (scores : ScoreList) (colors : Bool) : ∃ groups : List ScoreGroup,
    scores.grouped colors = "\n".intercalate (groups.map (·.written colors)) ∧
    scores.FallsInto groups ∧
    (scores.DisplaysAlike → ∀ other : ScoreList,
      scores.Perm other → other.grouped colors = scores.grouped colors) :=
  ⟨scores.groups, scores.grouped_eq colors, scores.fallsInto_groups, fun halike _ hperm =>
    (grouped_perm_of_displaysAlike hperm halike colors).symm⟩

/-- A script that is listed twice, and one whose path comes first although its text does not. -/
theorem grouped_partitions_listedTwice :
    let scores : ScoreList := [("a-b.py", 100), ("c.py", -3), ("a/b.py", 100), ("a-b.py", 100)].map
      fun entry => (.ofString entry.1, entry.2)
    scores.DisplaysAlike ∧ scores.Perm scores.reverse ∧
      ScoreList.grouped scores.reverse true = scores.grouped true := by
  intro scores
  have halike : scores.DisplaysAlike := by
    unfold DisplaysAlike
    decide +kernel
  have hperm : scores.Perm scores.reverse := (List.reverse_perm scores).symm
  obtain ⟨_, _, _, hother⟩ := scores.grouped_partitions true
  exact ⟨halike, hperm, hother halike _ hperm⟩

end ScoreList
end ScriptAudit
