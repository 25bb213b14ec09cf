import ScriptAudit.Unicode.Ranges

/-! # White space

The characters with the property White_Space. They separate the words of a call and are trimmed
from the entries of a list.
-/
namespace ScriptAudit.Unicode

def blankRanges : Ranges :=
  [(0x9, 0xd), (0x20, 0x20), (0x85, 0x85), (0xa0, 0xa0), (0x1680, 0x1680), (0x2000, 0x200a),
   (0x2028, 0x2029), (0x202f, 0x202f), (0x205f, 0x205f), (0x3000, 0x3000)]

def isBlank (c : Char) : Bool := blankRanges.contains c

end ScriptAudit.Unicode
