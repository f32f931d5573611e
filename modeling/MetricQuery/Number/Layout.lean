import MetricQuery.Number.Shortest

/-!
# Number layouts

How the shortest digits of a finite number are laid out as text. Query text and JSON share the
digits and differ in three decisions, which a `Layout` records.
-/

set_option autoImplicit false

namespace MetricQuery

/-- The decisions that turn the shortest digits of a number into text. -/
structure Layout where
  /-- Which of two equally near decimals is written. -/
  tie : Tie
  /-- For which exponents of the leading digit all places are written out. -/
  isPlain : Int → Bool
  /-- Whether a whole number keeps a fraction: `2.0`. -/
  keepsFraction : Bool

namespace Layout

/-- The text of a nonnegative decimal. -/
def decimal (layout : Layout) (d : Decimal) : List Char :=
  if layout.isPlain d.leading then
    if layout.keepsFraction && decide (0 ≤ d.exponent) then d.plain ++ ['.', '0'] else d.plain
  else d.scientific

/-- The text of a finite number, zero with its sign like all others. -/
def write (layout : Layout) (x : Double) : List Char :=
  (if x.isNegative then ['-'] else []) ++ layout.decimal (x.shortest layout.tie)

end Layout

end MetricQuery
