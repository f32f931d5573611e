/-!
# Sets of characters

A property of characters that a standard defines by a table is a list of ranges of code points,
both ends included, in ascending order.
-/

set_option autoImplicit false

namespace MetricQuery

/-- Ranges of code points, both ends included. -/
abbrev CharSet := List (Nat × Nat)

/-- Whether a character lies in one of the ranges. -/
def CharSet.contains (set : CharSet) (c : Char) : Bool :=
  set.any fun r => decide (r.1 ≤ c.toNat ∧ c.toNat ≤ r.2)

end MetricQuery
