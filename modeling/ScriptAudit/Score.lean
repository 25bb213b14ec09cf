import ScriptAudit.Color

/-! # Scores

A score is shown out of a hundred, in a color that says how good it is.
-/
namespace ScriptAudit

def maxScore : Int := 100

namespace Score

/-- The color of a score; none for what is no score. -/
def color? (score : Int) : Option Color :=
  if score < 0 ∨ maxScore < score then none
  else if score < 50 then some .red
  else if score < 80 then some .yellow
  else if score < maxScore then some .cyan
  else some .green

def format (score : Int) (colors : Bool) : String :=
  let text := s!"{score} / {maxScore}"
  match color? score with
  | some c => c.boldIf colors text
  | none => text

end Score

end ScriptAudit
