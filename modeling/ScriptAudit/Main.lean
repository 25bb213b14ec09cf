import ScriptAudit.Run

/-! # The program

Reads from the disk what a run on the given arguments can look at, runs, and prints. All that is
decided here is how much of the disk is read: the way to each path with the links on it, and the
scripts in a directory to which a path leads.
-/
namespace ScriptAudit

/-- The place that an absolute path without links names. -/
def placeOf (path : String) : Place :=
  (Path.ofString path).components.filterMap fun
    | .name n => some n
    | _ => none

def fileAt (path : String) : IO Entry := do
  return .file (← IO.FS.readBinFile path).toList

/-- The scripts below a directory, and what else there is below it without its content. -/
partial def entriesBelow (recursive : Bool) (directory : String) : IO (List (Place × Entry)) := do
  let listed ← (System.mkFilePath [directory]).readDir
  let found ← listed.toList.mapM fun listed => do
    let path := listed.path.toString
    match (← listed.path.symlinkMetadata).type with
    | .file =>
      let content ← if (Path.ofString path).isScript then fileAt path else pure (.file [])
      return [(placeOf path, content)]
    | .dir =>
      let below ← if recursive then entriesBelow recursive path else pure []
      return (placeOf path, .directory) :: below
    | _ => return []
  return found.flatten

/-- What lies on the way from the directory `here` by the given pieces of a path, and at its end. -/
def entriesOnWay (recursive : Bool) (here : String) : List String → IO (List (Place × Entry))
  | [] => do
    if (← (System.mkFilePath [here]).metadata).type == .dir then entriesBelow recursive here
    else return [(placeOf here, ← fileAt here)]
  | piece :: pieces => do
    let path := here ++ "/" ++ piece
    let real := (← IO.FS.realPath path).toString
    let isLink := (← (System.mkFilePath [path]).symlinkMetadata).type == .symlink
    let entry := if isLink then [(placeOf path, .link (.ofString real))] else []
    return entry ++ (← entriesOnWay recursive real pieces)

/-- What a run can find at a path that is given to it; nothing if the path leads nowhere. -/
def entriesFor (recursive : Bool) (current : String) (p : Path) : IO (List (Place × Entry)) := do
  let start := if p.isAbsolute then "/" else current
  let pieces := (p.pieces.filter (!·.isEmpty)).map Utf8.decodeLossy
  try entriesOnWay recursive start pieces catch _ => return []

/-- Whether the terminal shows colors, or is to be treated as if it did. -/
def colorsAvailable : IO Bool := do
  let asked (name : String) : IO (Option Bool) := do return (← IO.getEnv name).map (· != "0")
  if (← asked "CLICOLOR_FORCE") = some true then return true
  if (← IO.getEnv "NO_COLOR").isSome then return false
  return (← asked "CLICOLOR").getD true && (← (← IO.getStdout).isTty)

def usage : String := "Usage: weechat-script-lint [-cnqrsSjvV] [-i FILES] [-l LEVEL] [-m NAMES] PATHS..."

end ScriptAudit

open ScriptAudit in
def main (arguments : List String) : IO UInt32 := do
  let current := (← IO.FS.realPath (← IO.currentDir)).toString
  let arguments := arguments.map Utf8.encode
  let entries ← match CommandLine.parse arguments with
    | .ok c => List.flatten <$> c.paths.mapM (entriesFor (c.has .recursive) current)
    | .error .version => pure []
    | .error .misuse => do
      IO.eprintln usage
      pure []
  let home := placeOf current
  let disk : Disk := ⟨.ofList ((home, .directory) :: entries), home⟩
  let a := answer arguments disk (← colorsAvailable)
  IO.print a.stdout
  match a.fatal with
  | some complaint => IO.eprintln complaint
  | none => pure ()
  return a.code.toUInt32
