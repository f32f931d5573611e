import MetricQuery.Number.Layout

/-!
# Number literals of query text

A query reads a number literal with all its places written out. Infinity and NaN have names of
their own, and a NaN has no sign.
-/

set_option autoImplicit false

namespace MetricQuery

/-- Query text has no exponents and no needless fraction, and a number half way between two
shortest decimals is written as the one further from zero. -/
def Layout.query : Layout where
  tie := .up
  isPlain := fun _ => true
  keepsFraction := false

/-- The query text of a number. -/
def Double.toQuery (x : Double) : List Char :=
  if x.isNaN then ['N', 'a', 'N']
  else if x.isInfinite then
    if x.isNegative then ['-', 'I', 'n', 'f'] else ['I', 'n', 'f']
  else Layout.query.write x

end MetricQuery
