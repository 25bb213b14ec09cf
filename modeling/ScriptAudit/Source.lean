import ScriptAudit.File.Path
import ScriptAudit.Pattern.Search
import ScriptAudit.Fault

/-! # Scripts as the rules see them

A source is the text of a script and the path it comes from. A rule answers with hits: the lines
on which it found something, each with what its message needs.
-/
namespace ScriptAudit

structure Source where
  path : Path
  text : String
  deriving DecidableEq, Repr

structure Hit where
  line : Nat
  filling : Filling
  deriving DecidableEq, Repr

def Hit.at (line : Nat) : Hit := ⟨line, .none⟩

abbrev Detector := Source → Except RuleFault (List Hit)

namespace Source

def chars (s : Source) : List Char := s.text.toList

def search (s : Source) (p : Pattern) (maxLines : Nat) : List Match :=
  p.search s.text (.ofText s.text) maxLines

def count (s : Source) (needle : String) : Nat := Text.count needle.toList s.chars

def mentions (s : Source) (needle : String) : Bool := Text.occursIn needle.toList s.chars

def hits (s : Source) (p : Pattern) (maxLines : Nat) : List Hit :=
  (s.search p maxLines).map fun m => Hit.at m.line

/-- A single hit on the first line unless something holds of the source. -/
def firstLineUnless (holds : Bool) : List Hit := if holds then [] else [Hit.at 1]

end Source
end ScriptAudit
