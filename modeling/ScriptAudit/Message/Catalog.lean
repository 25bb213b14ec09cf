import ScriptAudit.Message.RuleName
import ScriptAudit.Message.Template

/-! # The message catalog

Every rule name has one entry: the severity of its findings, what a finding takes from the score
of a script, and the template of its text.
-/
namespace ScriptAudit

structure CatalogEntry where
  severity : Severity
  scoreDelta : Int
  template : String
  deriving DecidableEq, Repr

/-- The template of a message that recommends one name for an IRC message in place of another. -/
def renamedTemplate (kind old new : String) : String :=
  kind ++ " " ++ old ++ "\x7bmessage\x7d should be replaced by " ++ new ++
    "\x7bmessage\x7d which sends only valid UTF-8 data"

/-- The template of a message on something deprecated that has a replacement. -/
def deprecatedTemplate (kind old since new : String) : String :=
  kind ++ " " ++ old ++ " is deprecated since WeeChat " ++ since ++ " and must be replaced by " ++ new

def RuleName.entry : RuleName → CatalogEntry
  | emptyFile => ⟨.error, -100, "the script is empty"⟩
  | missingEmail => ⟨.error, -15, "the author e-mail is missing"⟩
  | missingInfolistFree => ⟨.error, -20, "missing call to infolist_free"⟩
  | python2Bin => ⟨.error, -20, "the info python2_bin must not be used any more"⟩
  | sysExit => ⟨.warning, -10, "sys.exit() causes WeeChat to exit itself"⟩
  | deprecatedHookCompletionGetString => ⟨.warning, -8,
      deprecatedTemplate "function" "hook_completion_get_string" "2.9" "completion_get_string"⟩
  | deprecatedHookCompletionListAdd => ⟨.warning, -8,
      deprecatedTemplate "function" "hook_completion_list_add" "2.9" "completion_list_add"⟩
  | deprecatedIrcNickColor => ⟨.warning, -8,
      deprecatedTemplate "info" "irc_nick_color" "1.5" "nick_color"⟩
  | deprecatedIrcNickColorName => ⟨.warning, -8,
      deprecatedTemplate "info" "irc_nick_color_name" "1.5" "nick_color_name"⟩
  | modifierIrcIn => ⟨.warning, -5, renamedTemplate "modifier" "irc_in_" "irc_in2_"⟩
  | signalIrcOut => ⟨.warning, -5, renamedTemplate "signal" "irc_out_" "irc_out1_"⟩
  | signalIrcOuttags => ⟨.warning, -5, renamedTemplate "signal" "irc_outtags_" "irc_out1_"⟩
  | hookProcessUrl => ⟨.warning, -5,
      "hook_process with \"url:\" is deprecated since WeeChat 4.1.0 " ++
        "and should be replaced by hook_url"⟩
  | mixedTabsSpaces => ⟨.warning, -5, "mixed tabs and spaces are used for indentation"⟩
  | unneededShebang => ⟨.info, -1, "shebang not needed"⟩
  | urlWeechat => ⟨.info, -1,
      "URL \x7blink\x7d should be changed to https://weechat.org"⟩
  | missingSpdxCopyright => ⟨.info, -1,
      "the SPDX copyright tag \"SPDX-FileCopyrightText\" is missing"⟩
  | missingSpdxLicense => ⟨.info, -1,
      "the SPDX license tag \"SPDX-License-Identifier\" is missing"⟩

end ScriptAudit
