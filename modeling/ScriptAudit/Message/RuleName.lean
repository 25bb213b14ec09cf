import ScriptAudit.Message.Severity
import ScriptAudit.Text.Split

/-! # Rule names

The names under which findings are reported and can be ignored. `emptyFile` stands for the finding
on a script without any text, which no rule is run on.
-/
namespace ScriptAudit

inductive RuleName where
  | emptyFile
  | missingEmail
  | missingInfolistFree
  | python2Bin
  | sysExit
  | deprecatedHookCompletionGetString
  | deprecatedHookCompletionListAdd
  | deprecatedIrcNickColor
  | deprecatedIrcNickColorName
  | modifierIrcIn
  | signalIrcOut
  | signalIrcOuttags
  | hookProcessUrl
  | mixedTabsSpaces
  | unneededShebang
  | urlWeechat
  | missingSpdxCopyright
  | missingSpdxLicense
  deriving DecidableEq, Repr

namespace RuleName

def all : List RuleName :=
  [emptyFile, missingEmail, missingInfolistFree, python2Bin, sysExit,
   deprecatedHookCompletionGetString, deprecatedHookCompletionListAdd, deprecatedIrcNickColor,
   deprecatedIrcNickColorName, modifierIrcIn, signalIrcOut, signalIrcOuttags, hookProcessUrl,
   mixedTabsSpaces, unneededShebang, urlWeechat, missingSpdxCopyright, missingSpdxLicense]

def name : RuleName → String
  | emptyFile => "empty_file"
  | missingEmail => "missing_email"
  | missingInfolistFree => "missing_infolist_free"
  | python2Bin => "python2_bin"
  | sysExit => "sys_exit"
  | deprecatedHookCompletionGetString => "deprecated_hook_completion_get_string"
  | deprecatedHookCompletionListAdd => "deprecated_hook_completion_list_add"
  | deprecatedIrcNickColor => "deprecated_irc_nick_color"
  | deprecatedIrcNickColorName => "deprecated_irc_nick_color_name"
  | modifierIrcIn => "modifier_irc_in"
  | signalIrcOut => "signal_irc_out"
  | signalIrcOuttags => "signal_irc_outtags"
  | hookProcessUrl => "hook_process_url"
  | mixedTabsSpaces => "mixed_tabs_spaces"
  | unneededShebang => "unneeded_shebang"
  | urlWeechat => "url_weechat"
  | missingSpdxCopyright => "missing_spdx_copyright"
  | missingSpdxLicense => "missing_spdx_license"

def parse (text : String) : Except NameError RuleName :=
  match all.find? (·.name == text) with
  | some r => .ok r
  | none => .error (.unknownRule text)

/-- The rules that a comma-separated list names, in their own order and each once. Entries that
name no rule are skipped. -/
def parseList (list : String) : List RuleName :=
  let named := Text.entries list
  all.filter fun r => named.contains r.name

end RuleName
end ScriptAudit
