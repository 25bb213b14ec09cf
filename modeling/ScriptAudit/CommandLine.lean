import ScriptAudit.Analysis.Options
import ScriptAudit.File.Path

/-! # The command line

Arguments are sequences of bytes. They are read from left to right, and the first thing that settles
the matter wins: a mistake, or the wish to see the version. An option may be given once, short options
may be written together, and the value of an option stands behind it or in the next argument, which
must not look like an option. Values have to be text, paths need not. Behind a double hyphen all
arguments are paths.
-/
namespace ScriptAudit

inductive Key where
  | noColors
  | ignoreFiles
  | level
  | ignoreMessages
  | nameOnly
  | quiet
  | recursive
  | strict
  | score
  | json
  | verbose
  | version
  deriving DecidableEq, Repr

namespace Key

def ofLetter? : Char → Option Key
  | 'c' => some noColors
  | 'i' => some ignoreFiles
  | 'l' => some level
  | 'm' => some ignoreMessages
  | 'n' => some nameOnly
  | 'q' => some quiet
  | 'r' => some recursive
  | 's' => some strict
  | 'S' => some score
  | 'j' => some json
  | 'v' => some verbose
  | 'V' => some version
  | _ => none

def ofWord? : String → Option Key
  | "no-colors" => some noColors
  | "ignore-files" => some ignoreFiles
  | "level" => some level
  | "ignore-messages" => some ignoreMessages
  | "name-only" => some nameOnly
  | "quiet" => some quiet
  | "recursive" => some recursive
  | "strict" => some strict
  | "score" => some score
  | "json" => some json
  | "verbose" => some verbose
  | "version" => some version
  | _ => none

def takesValue : Key → Bool
  | ignoreFiles | level | ignoreMessages => true
  | _ => false

end Key

/-- Why no run takes place: the arguments are wrong, or only the version is asked for. -/
inductive NoRun where
  | misuse
  | version
  deriving DecidableEq, Repr

abbrev Argument := List UInt8

structure CommandLine where
  options : List (Key × String)
  paths : List Path
  deriving DecidableEq, Repr

namespace CommandLine

@[match_pattern] def hyphen : UInt8 := 45
@[match_pattern] def equals : UInt8 := 61

def has (c : CommandLine) (k : Key) : Bool := c.options.any (·.1 = k)

def value (c : CommandLine) (k : Key) : String := (c.options.lookup k).getD ""

def level (c : CommandLine) : Severity := (Severity.parse (c.value .level)).toOption.getD .info

/-- The arguments read so far, last first, the option that waits for its value, and whether only
paths follow. -/
structure Reading where
  options : List (Key × String)
  paths : List Path
  waiting : Option Key
  onlyPaths : Bool
  deriving DecidableEq, Repr

namespace Reading

def start : Reading := ⟨[], [], none, false⟩

def addPath (r : Reading) (argument : Argument) : Except NoRun Reading :=
  if argument.isEmpty then .error .misuse
  else .ok { r with paths := ⟨argument⟩ :: r.paths }

/-- Takes in an option with its value, which is empty for one that has none. -/
def addOption (r : Reading) (k : Key) (value : String) : Except NoRun Reading :=
  let repeated := r.options.any (·.1 = k) && k ≠ .verbose
  let badLevel := k = .level && (Severity.parse value).toOption.isNone
  if k = .version then .error .version
  else if repeated || badLevel then .error .misuse
  else .ok { r with options := (k, value) :: r.options, waiting := none }

/-- Takes in an option with the bytes of its value. -/
def addValue (r : Reading) (k : Key) (bytes : List UInt8) : Except NoRun Reading :=
  match Utf8.decode? bytes with
  | none => .error .misuse
  | some value => r.addOption k value

/-- Letters written together behind a hyphen; what follows an option with a value is the value. -/
def addLetters (r : Reading) : List UInt8 → Except NoRun Reading
  | [] => .ok r
  | letter :: rest =>
    match Key.ofLetter? (Char.ofUInt8 letter) with
    | none => .error .misuse
    | some k =>
      if k.takesValue then
        match rest with
        | [] => .ok { r with waiting := some k }
        | equals :: value => r.addValue k value
        | value => r.addValue k value
      else do (← r.addOption k "").addLetters rest

/-- A word behind two hyphens, perhaps with a value behind an equals sign. -/
def addWord (r : Reading) (word : List UInt8) : Except NoRun Reading :=
  let (name, value) := word.span (· != equals)
  match (Utf8.decode? name).bind Key.ofWord? with
  | none => .error .misuse
  | some k =>
    match k.takesValue, value with
    | true, [] => .ok { r with waiting := some k }
    | true, _ :: value => r.addValue k value
    | false, [] => r.addOption k ""
    | false, _ :: _ => .error .misuse

def step (r : Reading) (argument : Argument) : Except NoRun Reading :=
  if r.onlyPaths then r.addPath argument
  else match r.waiting, argument with
    | none, [hyphen, hyphen] => .ok { r with onlyPaths := true }
    | none, hyphen :: hyphen :: word => r.addWord word
    | none, hyphen :: letter :: letters => r.addLetters (letter :: letters)
    | none, _ => r.addPath argument
    | some _, hyphen :: _ :: _ => .error .misuse
    | some k, _ => r.addValue k argument

def finish (r : Reading) : Except NoRun CommandLine :=
  if r.waiting.isSome || r.paths.isEmpty then .error .misuse
  else .ok ⟨r.options.reverse, r.paths.reverse⟩

end Reading

def parse (arguments : List Argument) : Except NoRun CommandLine := do
  (← arguments.foldlM Reading.step .start).finish

end CommandLine
end ScriptAudit
