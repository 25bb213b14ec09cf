import ScriptAudit.Source
import ScriptAudit.Pattern.Call

/-! # Rules on what a script says about itself

The author's e-mail address, the license and copyright tags, the first line, and links to the
WeeChat site.
-/
namespace ScriptAudit.Rules
open Pattern

def anyCase (s : CharSet) : Pattern := set s.closeCase

def alphanumeric : CharSet := .union (.range 'a' 'z') (.range '0' '9')

/-- A word of an address, with the given characters beside letters and digits. -/
def addressWord (others : String) : Pattern :=
  plus true (anyCase (.union alphanumeric (.ofList others.toList)))

def spaces : Pattern := (char ' ').star true

/-- A sign of an address: the character itself, or its name in words with spaces around it. -/
def sign (c : Char) (name : String) : Pattern :=
  alt (char c) (seqAll [spaces, literalAnyCase name, spaces])

/-- A very permissive form of address, written out or obfuscated, or a name in angle brackets. -/
def emailPattern : Pattern :=
  let maybeSpace := (char ' ').optional true
  alt
    (seqAll [addressWord "*#_.+-", maybeSpace, sign '@' "at", maybeSpace, addressWord "*#-",
      sign '.' "dot", addressWord ".-"])
    (seqAll [char '<', addressWord "_.+-", char '>'])

def missingEmail : Detector := fun s =>
  .ok (Source.firstLineUnless (emailPattern.isFoundIn s.text))

/-- The site under a name that should not be used: without encryption, or with "www". -/
def sitePattern : Pattern :=
  let insecure := seqAll [literalAnyCase "http://", plus true (anyCase (.ofList ['w', '.'])),
    literalAnyCase "weechat"]
  let www := seqAll [literalAnyCase "http", (literalAnyCase "s").optional true,
    literalAnyCase "://www", set (.compl (.one '\n')), literalAnyCase "weechat"]
  seq (alt insecure www) (alt (literalAnyCase ".org") (literalAnyCase ".net"))

def urlWeechat : Detector := fun s =>
  .ok ((s.search sitePattern 1).map fun m => ⟨m.line, .link m.text⟩)

/-- Scripts are loaded by WeeChat itself, so a first line for the shell is of no use. -/
def unneededShebang : Detector := fun s =>
  .ok (Source.firstLineUnless (!"#!".toList.isPrefixOf s.chars))

def missingSpdxCopyright : Detector := fun s =>
  .ok (Source.firstLineUnless (s.mentions "SPDX-FileCopyrightText:"))

def missingSpdxLicense : Detector := fun s =>
  .ok (Source.firstLineUnless (s.mentions "SPDX-License-Identifier:"))

end ScriptAudit.Rules
