import ScriptAudit.Score
import ScriptAudit.File.Path

/-! # Lists of scores

Scripts are listed with their scores one by one, or grouped by score with the best score first.
-/
namespace ScriptAudit

/-- The scores of scripts, in the order in which the scripts were taken. -/
abbrev ScoreList := List (Path × Int)

namespace ScoreList

def listing (scores : ScoreList) (colors : Bool) : String :=
  "\n".intercalate (scores.map fun (path, score) =>
    s!"{path.display}: score = {Score.format score colors}")

/-- The scores that occur, each once and the best first. -/
def distinct (scores : ScoreList) : List Int :=
  ((scores.map (·.2)).mergeSort fun a b => b ≤ a).eraseReps

/-- The scripts with the given score, in path order; equal paths stay in their order. -/
def withScore (scores : ScoreList) (score : Int) : List Path :=
  ((scores.filter (·.2 = score)).map (·.1)).mergeSort Path.le

def block (scores : ScoreList) (colors : Bool) (score : Int) : String :=
  let paths := scores.withScore score
  s!"{paths.length} scripts with score {Score.format score colors}:" ++
    String.join (paths.map fun p => "\n  " ++ p.display)

def grouped (scores : ScoreList) (colors : Bool) : String :=
  "\n".intercalate (scores.distinct.map (scores.block colors))

end ScoreList
end ScriptAudit
