import ScriptAudit.Text.Split
import ScriptAudit.Text.Utf8

/-! # Paths

A path is a sequence of bytes. Its components are the pieces between slashes, where empty pieces
and single dots count for nothing, except that a leading slash and a leading dot are components of
their own. Paths are ordered component by component, and two paths with the same components are
equal in that order.
-/
namespace ScriptAudit

structure Path where
  bytes : List UInt8
  deriving DecidableEq, Repr

/-- The name of a file or directory inside its directory. -/
abbrev FileName := List UInt8

namespace Path

def slash : UInt8 := 47
def dot : UInt8 := 46

def ofString (text : String) : Path := ⟨Utf8.encode text⟩

def display (p : Path) : String := Utf8.decodeLossy p.bytes

inductive Component where
  | root
  | current
  | parent
  | name (bytes : FileName)
  deriving DecidableEq, Repr

def pieces (p : Path) : List (List UInt8) := Text.split slash p.bytes

def isAbsolute (p : Path) : Bool := p.bytes.head? == some slash

/-- What comes before the first name of a path. -/
def anchor (p : Path) : List Component :=
  if p.isAbsolute then [.root] else if p.pieces.head? == some [dot] then [.current] else []

def Component.ofPiece? (piece : List UInt8) : Option Component :=
  if piece = [] ∨ piece = [dot] then none
  else if piece = [dot, dot] then some .parent
  else some (.name piece)

def components (p : Path) : List Component := p.anchor ++ p.pieces.filterMap Component.ofPiece?

/-- The last component, if it is a name. -/
def fileName? (p : Path) : Option FileName :=
  match p.components.getLast? with
  | some (.name n) => some n
  | _ => none

/-- What follows the last dot of a name; `none` if there is no dot but perhaps a leading one. -/
def extensionOf? (name : FileName) : Option (List UInt8) :=
  match name.reverse.span (· != dot) with
  | (_, []) | (_, [_]) => none
  | (reversed, _) => some reversed.reverse

def extension? (p : Path) : Option (List UInt8) := p.fileName?.bind extensionOf?

def textExtension? (p : Path) : Option String := p.extension?.bind Utf8.decode?

def join (p : Path) (name : FileName) : Path :=
  if p.bytes = [] ∨ p.bytes.getLast? = some slash then ⟨p.bytes ++ name⟩
  else ⟨p.bytes ++ slash :: name⟩

/-- Components are ordered as in their declaration, names by their bytes. -/
def Component.key : Component → List Nat
  | root => [0]
  | current => [1]
  | parent => [2]
  | name bytes => 3 :: bytes.map (·.toNat)

def key (p : Path) : List (List Nat) := p.components.map Component.key

def le (p q : Path) : Bool := (compare p.key q.key).isLE

end Path
end ScriptAudit
