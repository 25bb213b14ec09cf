import ScriptAudit.Pattern.Reader
import ScriptAudit.Pattern.Search

/-! # Calls

A call is a function followed by its first argument. White space, commas and parentheses may stand
between the two, so a call may be spread over lines.
-/
namespace ScriptAudit.Pattern

def gap : Pattern := (set (.unionAll [.blank, .one ',', .one '('])).star true

def call (function argument : Pattern) : Pattern := seqAll [function, gap, argument]

def quote : Pattern := set (.ofList ['"', '\''])

/-- A text in quotation marks, which need not be alike. -/
def quoted (p : Pattern) : Pattern := seqAll [quote, p, quote]

/-- A text that is not empty and holds no quotation mark. -/
def unquotedText : Pattern := plus true (set (.compl (.ofList ['"', '\''])))

/-- The written form of a call, when both parts are given in writing. -/
def callNotation (function argument : String) : String := function ++ "[\\s,(]*" ++ argument

/-- All matches of a written pattern; none when the text describes no pattern. -/
def searchWritten? (d : Dialect) (written text : String) (ignoreCase : Bool) (maxLines : Nat) :
    Option (List Match) :=
  (read? d written ignoreCase).map fun p => p.search text (.ofText text) maxLines

end ScriptAudit.Pattern
