import ScriptAudit.File.Path

/-! # File trees

A file tree says what lies at each place below a root directory: a file with its bytes, a
directory, or a link with its target. A disk is a tree together with the directory in which
relative paths start. `Disk.locate` follows a path through the tree: every name on the way has to
be a directory, and links are replaced by their targets as long as there are not too many of them.

Names and links are limited as they are on a real disk. There is no limit on the length of a whole
path, and no failure that comes from permissions or from the device: every directory can be listed
and every file can be read.
-/
namespace ScriptAudit

inductive Entry where
  | file (bytes : List UInt8)
  | directory
  | link (target : Path)
  deriving DecidableEq, Repr

/-- The names that lead from the root to an entry. -/
abbrev Place := List FileName

namespace Place

def path (place : Place) : Path :=
  if place.isEmpty then ⟨[Path.slash]⟩ else ⟨place.flatMap (Path.slash :: ·)⟩

/-- Places are ordered name by name, names by their bytes. -/
def le (p q : Place) : Bool :=
  (compare (p.map (·.map UInt8.toNat)) (q.map (·.map UInt8.toNat))).isLE

end Place

/-- The entries below the root, each with its place. The root itself is a directory. -/
structure FileTree where
  entries : List (Place × Entry)
  deriving DecidableEq, Repr

namespace FileTree

def empty : FileTree := ⟨[]⟩

def get? (t : FileTree) (place : Place) : Option Entry :=
  if place.isEmpty then some .directory else t.entries.lookup place

/-- Adds an entry at a place where there is none yet. -/
def addNew (t : FileTree) (place : Place) (e : Entry) : FileTree :=
  if (t.get? place).isSome then t else ⟨t.entries ++ [(place, e)]⟩

def add (t : FileTree) (place : Place) (e : Entry) : FileTree :=
  (((List.range place.length).map place.take).foldl (·.addNew · .directory) t).addNew place e

def ofList (items : List (Place × Entry)) : FileTree :=
  items.foldl (fun t item => t.add item.1 item.2) empty

/-- The places of the files below a directory, relative to it, in order. Links are no files. -/
def filesBelow (t : FileTree) (top : Place) : List Place :=
  (t.entries.filterMap fun (place, e) =>
    match e with
    | .file _ => if top.isPrefixOf place then some (place.drop top.length) else none
    | _ => none).mergeSort Place.le

end FileTree

inductive PathError where
  | notFound
  | notDirectory
  | isDirectory
  | nameTooLong
  | tooManyLinks
  | nulByte
  deriving DecidableEq, Repr

def PathError.message : PathError → String
  | notFound => "No such file or directory (os error 2)"
  | notDirectory => "Not a directory (os error 20)"
  | isDirectory => "Is a directory (os error 21)"
  | nameTooLong => "File name too long (os error 36)"
  | tooManyLinks => "Too many levels of symbolic links (os error 40)"
  | nulByte => "file name contained an unexpected NUL byte"

namespace FileTree

def maxName : Nat := 255

def maxLinks : Nat := 40

/-- Goes down from the directory `here` by the given pieces of a path. What lies behind a link is
left to `next`, which gets the directory to go on from and the pieces still to go. -/
def descend (t : FileTree) (next : Place → List (List UInt8) → Except PathError Place) :
    Place → List (List UInt8) → Except PathError Place
  | here, [] => .ok here
  | here, piece :: pieces =>
    match Path.Component.ofPiece? piece with
    | some (.name name) =>
      if name.length > maxName then .error .nameTooLong
      else match t.get? (here ++ [name]) with
        | none => .error .notFound
        | some .directory => t.descend next (here ++ [name]) pieces
        | some (.file _) => if pieces.isEmpty then .ok (here ++ [name]) else .error .notDirectory
        | some (.link target) =>
          next (if target.isAbsolute then [] else here) (target.pieces ++ pieces)
    | some .parent => t.descend next here.dropLast pieces
    | _ => t.descend next here pieces

/-- Goes down with at most the given number of links. -/
def follow (t : FileTree) : Nat → Place → List (List UInt8) → Except PathError Place
  | 0 => t.descend fun _ _ => .error .tooManyLinks
  | links + 1 => t.descend (t.follow links)

end FileTree

structure Disk where
  tree : FileTree
  home : Place
  deriving DecidableEq, Repr

namespace Disk

/-- The place to which a path leads, links resolved. -/
def locate (d : Disk) (p : Path) : Except PathError Place :=
  if p.bytes.contains 0 then .error .nulByte
  else if p.bytes.isEmpty then .error .notFound
  else d.tree.follow FileTree.maxLinks (if p.isAbsolute then [] else d.home) p.pieces

/-- The place to which a path leads, and the bytes of the file that lies there. -/
def read (d : Disk) (p : Path) : Except PathError (Place × List UInt8) :=
  match d.locate p with
  | .error e => .error e
  | .ok place =>
    match d.tree.get? place with
    | some (.file bytes) => .ok (place, bytes)
    | some .directory => .error .isDirectory
    | _ => .error .notFound

end Disk
end ScriptAudit
