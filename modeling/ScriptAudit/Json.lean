/-! # JSON text

Values with text, whole numbers, lists and records, and their text with two blanks of indentation
for each level. Empty lists and records are written without a line break. In strings only the
quotation mark, the backslash and control characters below the blank are escaped.
-/
namespace ScriptAudit

inductive Json where
  | text (value : String)
  | number (value : Int)
  | list (items : List Json)
  | record (fields : List (String × Json))

namespace Json

def hexDigit (n : Nat) : Char := Char.ofNat (if n < 10 then 0x30 + n else 0x57 + n)

def escapeChar (c : Char) : List Char :=
  match c with
  | '"' => ['\\', '"']
  | '\\' => ['\\', '\\']
  | '\x08' => ['\\', 'b']
  | '\x0c' => ['\\', 'f']
  | '\n' => ['\\', 'n']
  | '\r' => ['\\', 'r']
  | '\t' => ['\\', 't']
  | c =>
    if c.toNat < 0x20 then ['\\', 'u', '0', '0', hexDigit (c.toNat / 16), hexDigit (c.toNat % 16)]
    else [c]

def quoted (s : String) : String := "\"" ++ String.ofList (s.toList.flatMap escapeChar) ++ "\""

def newline (level : Nat) : String := "\n" ++ String.ofList (List.replicate (2 * level) ' ')

/-- Items between brackets, each on a line of its own. -/
def enclosed (left right : String) (level : Nat) (items : List String) : String :=
  if items.isEmpty then left ++ right
  else left ++ newline (level + 1) ++ ("," ++ newline (level + 1)).intercalate items ++
    newline level ++ right

mutual
def render (level : Nat) : Json → String
  | text value => quoted value
  | number value => toString value
  | list items => enclosed "[" "]" level (renderItems (level + 1) items)
  | record fields => enclosed "\x7b" "\x7d" level (renderFields (level + 1) fields)

def renderItems (level : Nat) : List Json → List String
  | [] => []
  | item :: items => item.render level :: renderItems level items

def renderFields (level : Nat) : List (String × Json) → List String
  | [] => []
  | (key, value) :: fields =>
    (quoted key ++ ": " ++ value.render level) :: renderFields level fields
end

end Json
end ScriptAudit
