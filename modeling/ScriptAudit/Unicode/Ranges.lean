/-! # Sets of code points given by ranges

A property of characters is written as a list of closed ranges of code points, in increasing order.
-/
namespace ScriptAudit.Unicode

abbrev Ranges := List (Nat × Nat)

def Ranges.contains (rs : Ranges) (c : Char) : Bool :=
  rs.any fun r => r.1 ≤ c.toNat && c.toNat ≤ r.2

end ScriptAudit.Unicode
