import ScriptAudit.Pattern.Search

/-! # Message templates

A template is a text with placeholders, which are names in braces. What a rule found is the value
for one name. A message is made in two passes: the first one looks for a placeholder without a value,
and if there is none, the second one puts the values into the template. The values are put in as they
are, so a value that looks like a placeholder stays what it is.
-/
namespace ScriptAudit

/-- What a rule found to put into its message: the name of an IRC message, or a link. -/
inductive Filling where
  | none
  | message (value : String)
  | link (value : String)
  deriving DecidableEq, Repr

/-- The value for the placeholders of a name. -/
def Filling.value? : Filling → String → Option String
  | none, _ => Option.none
  | message value, name => if name = "message" then some value else Option.none
  | link value, name => if name = "link" then some value else Option.none

namespace Template
open Pattern

/-- Small letters and underscores in braces. -/
def placeholder : Pattern :=
  seqAll [char '\x7b', group 1 (plus true (set (.union (.range 'a' 'z') (.one '_')))), char '\x7d']

/-- The name of a placeholder of the template. -/
def nameAt (template : String) (m : Occurrence) : String :=
  String.ofList (m.captured template.toList)

/-- The names of all placeholders in order. -/
def names (template : String) : List String :=
  (placeholder.taken template.toList).map (nameAt template)

/-- The template with its placeholders replaced. -/
def replace (template : String) (value : String → String) : String :=
  String.ofList (Occurrence.replaceFrom template.toList (fun m => (value (nameAt template m)).toList) 0
    (placeholder.taken template.toList))

/-- The text of a template with the values filled in, or the name of the first placeholder for which
there is no value. -/
def fill (template : String) (filling : Filling) : Except String String :=
  match (names template).find? fun name => (filling.value? name).isNone with
  | some name => .error name
  | none => .ok (replace template fun name => (filling.value? name).getD "")

end Template
end ScriptAudit
