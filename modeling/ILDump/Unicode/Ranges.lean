/-!
# Ranges of code points

A class of characters is a list of ranges in ascending order, both ends included.
-/

namespace ILDump.Unicode

/-- A class of characters by first and last code points. -/
abbrev Ranges := List (Nat × Nat)

/-- Whether a character lies in one of the ranges. -/
def Ranges.contain (rs : Ranges) (c : Char) : Bool :=
  rs.any fun r => r.1 ≤ c.toNat && c.toNat ≤ r.2

end ILDump.Unicode
