import ScriptAudit.Rules.Api
import ScriptAudit.Rules.Indentation
import ScriptAudit.Rules.Metadata

/-! # The table of rules

The rules in the order in which they are run and in which their findings are reported, each with
the severity it is declared with and, if it concerns some scripts only, their extensions.
-/
namespace ScriptAudit

structure Rule where
  name : RuleName
  severity : Severity
  extensions : Option (List String)
  detect : Detector

namespace Rule

def appliesTo (r : Rule) (s : Source) : Bool :=
  r.extensions.all fun names => s.path.textExtension?.any names.contains

open Rules in
def table : List Rule :=
  [⟨.missingEmail, .error, none, missingEmail⟩,
   ⟨.missingInfolistFree, .error, none, missingInfolistFree⟩,
   ⟨.python2Bin, .error, some ["py"], python2Bin⟩,
   ⟨.sysExit, .warning, some ["py"], sysExit⟩,
   ⟨.deprecatedHookCompletionGetString, .warning, none, hookCompletionGetString⟩,
   ⟨.deprecatedHookCompletionListAdd, .warning, none, hookCompletionListAdd⟩,
   ⟨.deprecatedIrcNickColor, .warning, none, ircNickColor⟩,
   ⟨.deprecatedIrcNickColorName, .warning, none, ircNickColorName⟩,
   ⟨.modifierIrcIn, .warning, none, modifierIrcIn⟩,
   ⟨.signalIrcOut, .warning, none, signalIrcOut⟩,
   ⟨.signalIrcOuttags, .warning, none, signalIrcOuttags⟩,
   ⟨.hookProcessUrl, .warning, none, hookProcessUrl⟩,
   ⟨.mixedTabsSpaces, .warning, none, mixedTabsSpaces⟩,
   ⟨.unneededShebang, .info, none, unneededShebang⟩,
   ⟨.urlWeechat, .info, none, urlWeechat⟩,
   ⟨.missingSpdxCopyright, .info, none, missingSpdxCopyright⟩,
   ⟨.missingSpdxLicense, .info, none, missingSpdxLicense⟩]

def find? (name : RuleName) : Option Rule := table.find? (·.name = name)

end Rule
end ScriptAudit
