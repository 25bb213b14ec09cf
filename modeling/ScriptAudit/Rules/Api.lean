import ScriptAudit.Source
import ScriptAudit.Pattern.Call

/-! # Rules on the use of the scripting interface

Calls that are broken, deprecated or risky. A deprecated name is tolerated where its replacement
is used exactly as often, as a script does that supports both; a call that names an IRC message
reports that message.
-/
namespace ScriptAudit.Rules
open Pattern

def infolistGet : Pattern := literal "infolist_get"

/-- Calls are not paired: one release anywhere is enough. -/
def missingInfolistFree : Detector := fun s =>
  let gets := s.search infolistGet 1
  .ok (if gets.isEmpty || 0 < s.count "infolist_free" then [] else gets.map fun m => Hit.at m.line)

def infoGet (info : String) : Pattern := call (literal "info_get") (quoted (literal info))

def python2Bin : Detector := fun s => .ok (s.hits (infoGet "python2_bin") 2)

def sysExit : Detector := fun s => .ok (s.hits (literal "sys.exit") 1)

/-- The uses of `old`, unless there are as many of `new`. -/
def deprecated (old new : Pattern) (maxLines : Nat) : Detector := fun s =>
  let oldUses := s.search old maxLines
  let newUses := s.search new maxLines
  .ok (if oldUses.length = newUses.length then [] else oldUses.map fun m => Hit.at m.line)

def wordStart (name : String) : Pattern := seq (check (.word .boundary false)) (literal name)

def hookCompletionGetString : Detector :=
  deprecated (literal "hook_completion_get_string") (wordStart "completion_get_string") 1

def hookCompletionListAdd : Detector :=
  deprecated (literal "hook_completion_list_add") (wordStart "completion_list_add") 1

def ircNickColor : Detector := deprecated (infoGet "irc_nick_color") (infoGet "nick_color") 2

def ircNickColorName : Detector :=
  deprecated (infoGet "irc_nick_color_name") (infoGet "nick_color_name") 2

/-- What a group captured; it is a fault if the group took no part in the match. -/
def capture (m : Match) (n : Nat) : Except RuleFault String :=
  match m.group n with
  | some text => .ok text
  | none => .error (.missingCapture n m.line)

/-- The matches of a pattern whose first group is the name of an IRC message. -/
def messageHits (p : Pattern) : Detector := fun s =>
  (s.search p 2).mapM fun m => do return ⟨m.line, .message (← capture m 1)⟩

def modifierPattern : Pattern :=
  call (literal "hook_modifier") (quoted (seq (literal "irc_in_") (group 1 unquotedText)))

/-- A hook on several signals, the last of which is named for an IRC message. -/
def signalPattern (signal : String) : Pattern :=
  call (literal "hook_signal")
    (quoted (seqAll [unquotedText, literal ("," ++ signal), group 1 unquotedText]))

def modifierIrcIn : Detector := messageHits modifierPattern
def signalIrcOut : Detector := messageHits (signalPattern "irc_out_")
def signalIrcOuttags : Detector := messageHits (signalPattern "irc_outtags_")

def processUrlPattern : Pattern :=
  call (seq (literal "hook_process") ((literal "_hashtable").optional true))
    (seq quote (literal "url:"))

def hookProcessUrl : Detector := fun s => .ok (s.hits processUrlPattern 2)

end ScriptAudit.Rules
