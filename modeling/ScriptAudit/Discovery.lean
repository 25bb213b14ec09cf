import ScriptAudit.Analysis.Check
import ScriptAudit.File.Tree

/-! # Finding and reading scripts

A path on the command line is a script or a directory of scripts. A directory is listed in the
order of file names, its sub-directories only on request. Links below the directory are passed
over, a link that is given itself is followed. A script that is read goes by the path to which all
links lead.
-/
namespace ScriptAudit

def scriptExtensions : List String := ["js", "lua", "php", "pl", "py", "rb", "scm", "tcl"]

namespace Path

/-- The last component as text, if it is a name and text. -/
def textFileName? (p : Path) : Option String := p.fileName?.bind Utf8.decode?

/-- Whether a path looks like a script: a name that is not hidden, with a known extension. -/
def isScript (p : Path) : Bool :=
  p.textFileName?.any (!".".toList.isPrefixOf ·.toList) &&
    p.textExtension?.any scriptExtensions.contains

def isWanted (p : Path) (ignoredFiles : List String) : Bool :=
  p.isScript && !p.textFileName?.any ignoredFiles.contains

end Path

namespace Disk

def collect (d : Disk) (recursive : Bool) (ignoredFiles : List String) (p : Path) :
    Except Fault (List Path) :=
  match d.locate p with
  | .error _ => .error (.invalidPath p)
  | .ok place =>
    match d.tree.get? place with
    | some .directory =>
      let below := (d.tree.filesBelow place).filter fun names => recursive || names.length == 1
      .ok ((below.map (·.foldl Path.join p)).filter (·.isWanted ignoredFiles))
    | some (.file _) => .ok ([p].filter (·.isWanted ignoredFiles))
    | _ => .error (.invalidPath p)

def load (d : Disk) (o : Options) (p : Path) : Except Fault Script :=
  match d.read p with
  | .ok (place, bytes) => .ok (.ofSource ⟨place.path, Utf8.decodeLossy bytes⟩ o)
  | .error cause => .error (.unreadable p cause)

def check (d : Disk) (o : Options) (p : Path) : Except Fault Script := do
  (← d.load o p).check

end Disk
end ScriptAudit
