/-!
# Sets of code points

A Unicode property is stored as the list of its maximal ranges, both ends included.
-/

namespace Conformance.Text

/-- A set of code points, as ranges with both ends included. -/
abbrev Ranges := List (Nat × Nat)

/-- Whether the code point `n` lies in one of the ranges. -/
def Ranges.has (rs : Ranges) (n : Nat) : Bool :=
  rs.any fun r => r.1 ≤ n && n ≤ r.2

end Conformance.Text
