import ScriptAudit.Unicode.Blank

/-! # Cutting text into pieces

Splitting at a separator, trimming white space, the entries of a comma-separated list, and the
lines of a text.
-/
namespace ScriptAudit.Text

/-- The piece between two indices. -/
def slice (cs : List Char) (i j : Nat) : List Char := (cs.drop i).take (j - i)

/-- The pieces between the separators, one more than there are separators. -/
def split {α : Type} [BEq α] (separator : α) (cs : List α) : List (List α) :=
  cs.foldr (fun c pieces =>
    if c == separator then [] :: pieces
    else match pieces with
      | [] => [[c]]
      | piece :: others => (c :: piece) :: others) [[]]

def dropBlanks (cs : List Char) : List Char := cs.dropWhile Unicode.isBlank

def trim (cs : List Char) : List Char := (dropBlanks (dropBlanks cs).reverse).reverse

/-- The entries of a comma-separated list: trimmed, blank ones left out. -/
def entries (list : String) : List String :=
  (((split ',' list.toList).map trim).filter (!·.isEmpty)).map String.ofList

/-- A line without the carriage return at its end, if it has one. -/
def dropCarriageReturn (line : List Char) : List Char :=
  if line.getLast? == some '\r' then line.dropLast else line

/-- The lines of a text. A line feed ends a line, together with a carriage return before it; what
follows the last line feed is a line only if it is not empty. -/
def lines (cs : List Char) : List (List Char) :=
  let pieces := split '\n' cs
  pieces.dropLast.map dropCarriageReturn ++ pieces.getLast?.toList.filter (!·.isEmpty)

def occursIn (needle : List Char) : List Char → Bool
  | [] => needle.isEmpty
  | c :: cs => needle.isPrefixOf (c :: cs) || occursIn needle cs

/-- The number of occurrences of `needle` that do not overlap, counted from the left; the first
`skip` characters belong to an occurrence counted before. -/
def countFrom (needle : List Char) : Nat → List Char → Nat
  | _, [] => if needle.isEmpty then 1 else 0
  | skip + 1, _ :: cs => countFrom needle skip cs
  | 0, c :: cs =>
    if needle.isPrefixOf (c :: cs) then countFrom needle (needle.length - 1) cs + 1
    else countFrom needle 0 cs

def count (needle cs : List Char) : Nat := countFrom needle 0 cs

end ScriptAudit.Text
