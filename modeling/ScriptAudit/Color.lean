/-! # Colored text

Words that matter in a report are shown in bold and in a color by means of terminal control
sequences: one that switches color and weight on, the text, and one that resets both.
-/
namespace ScriptAudit

inductive Color where
  | red
  | green
  | yellow
  | cyan
  deriving DecidableEq, Repr

namespace Color

def name : Color → String
  | red => "red"
  | green => "green"
  | yellow => "yellow"
  | cyan => "cyan"

def code : Color → String
  | red => "31"
  | green => "32"
  | yellow => "33"
  | cyan => "36"

def bold (c : Color) (text : String) : String := "\x1b[1;" ++ c.code ++ "m" ++ text ++ "\x1b[0m"

/-- The text in bold and in color if colors are in use, and as it is otherwise. -/
def boldIf (c : Color) (inUse : Bool) (text : String) : String := if inUse then c.bold text else text

end Color
end ScriptAudit
