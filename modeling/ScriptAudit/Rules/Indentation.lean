import ScriptAudit.Source

/-! # Mixed indentation

A script is indented with tabs or with spaces. The rule reports the first line at which both have
been seen, be it in one indentation or in those of two lines. Lines that hold nothing but tabs and
spaces do not count.
-/
namespace ScriptAudit.Rules

def isIndent (c : Char) : Bool := c == ' ' || c == '\t'

/-- The tabs and spaces that a line starts with; `none` if there is nothing else on the line. -/
def indentation? (line : List Char) : Option (List Char) :=
  if line.all isIndent then none else some (line.takeWhile isIndent)

/-- The number of the line at which the mixture shows, the next line having the number `n`. -/
def firstMixture (tabs spaces : Bool) : Nat → List (List Char) → Option Nat
  | _, [] => none
  | n, line :: rest =>
    let indent := (indentation? line).getD []
    let tabs := tabs || indent.contains '\t'
    let spaces := spaces || indent.contains ' '
    if tabs && spaces then some n else firstMixture tabs spaces (n + 1) rest

def mixedTabsSpaces : Detector := fun s =>
  .ok ((firstMixture false false 1 (Text.lines s.chars)).toList.map Hit.at)

end ScriptAudit.Rules
