import MetricQuery.Number.Decimal

/-!
# Shortest decimals

A binary64 number is written with the fewest digits that still read back as it. The decimals that
read back as a number fill an interval around it, which reaches half way to its two neighbours and
contains its ends exactly when the significand is even. The search goes through ever finer decimal
grids, one digit more each time, and looks at the two grid points next to the number: if any point
of a grid lies in the interval, one of these two does.

When both lie in it the nearer one is taken. A number can be exactly half way between them, and
then the layout that is being written says which one: `Tie`.
-/

set_option autoImplicit false

namespace MetricQuery

/-- Which of two equally near decimals is written. -/
inductive Tie where
  /-- The one further from zero. -/
  | up
  /-- The one whose last digit is even. -/
  | toEven
deriving DecidableEq, Repr

/-- The numbers that round to a given positive number, all over one denominator. -/
structure RoundingInterval where
  low : Nat
  value : Nat
  high : Nat
  den : Nat
  /-- Whether the ends belong to the interval. -/
  closed : Bool

namespace RoundingInterval

/-- The interval of a positive finite number. Below a power of two the numbers lie twice as dense,
so the lower end is nearer there. -/
def of (x : Double) : RoundingInterval :=
  let m := x.significand
  let below := if m = Double.hiddenBit ∧ 1 < x.exponentField then 1 else 2
  -- A quarter of the step is the unit in which all four numbers are whole.
  let (scale, den) := shiftRatio 1 1 (x.exponent - 2)
  { low := (4 * m - below) * scale
    value := 4 * m * scale
    high := (4 * m + 2) * scale
    den := den
    closed := m % 2 = 0 }

/-- Whether the decimal `s * 10 ^ k` lies in the interval. -/
def contains (i : RoundingInterval) (s : Nat) (k : Int) : Bool :=
  let point := if 0 ≤ k then s * tenPow k.toNat * i.den else s * i.den
  let scale := if 0 ≤ k then 1 else tenPow (-k).toNat
  if i.closed then decide (i.low * scale ≤ point ∧ point ≤ i.high * scale)
  else decide (i.low * scale < point ∧ point < i.high * scale)

/-- The greatest `e` with `10 ^ e ≤ value`. -/
def decade (i : RoundingInterval) : Int :=
  if i.den ≤ i.value then (digitsOf (i.value / i.den)).length - 1
  else -((digitsOf ((i.den - 1) / i.value)).length : Int)

/-- The number of whole units of `10 ^ k` in the value, and twice the rest compared with a unit:
whether the value lies below, at or above the middle of its two grid points. -/
def position (i : RoundingInterval) (k : Int) : Nat × Ordering :=
  let num := if 0 ≤ k then i.value else i.value * tenPow (-k).toNat
  let den := if 0 ≤ k then i.den * tenPow k.toNat else i.den
  (num / den, compare (2 * (num % den)) den)

/-- Which of the grid points `s` and `s + 1` is nearer. -/
def nearer (tie : Tie) (s : Nat) : Ordering → Nat
  | .lt => s
  | .gt => s + 1
  | .eq => match tie with
    | .up => s + 1
    | .toEven => if s % 2 = 0 then s else s + 1

/-- The point of the grid `10 ^ k` that lies in the interval, the nearer one of two. -/
def pick? (tie : Tie) (i : RoundingInterval) (k : Int) : Option Nat :=
  let (s, side) := i.position k
  match i.contains s k, i.contains (s + 1) k with
  | true, true => some (nearer tie s side)
  | true, false => some s
  | false, true => some (s + 1)
  | false, false => none

/-- The first grid with a point in the interval, from `10 ^ k` on. -/
def search (tie : Tie) (i : RoundingInterval) : Nat → Int → Decimal
  | 0, k => ⟨(i.position k).1, k⟩
  | grids + 1, k =>
    match i.pick? tie k with
    | some s => ⟨s, k⟩
    | none => i.search tie grids (k - 1)

end RoundingInterval

/-- Drops final zeros, at most `fuel` of them. -/
def Decimal.trim : Nat → Decimal → Decimal
  | 0, d => d
  | fuel + 1, d =>
    if d.digits ≠ 0 ∧ d.digits % 10 = 0 then Decimal.trim fuel ⟨d.digits / 10, d.exponent + 1⟩
    else d

/-- The shortest decimal that reads back as the absolute value of a finite number. Seventeen digits
always suffice. -/
def Double.shortest (tie : Tie) (x : Double) : Decimal :=
  if x.isZero then ⟨0, 0⟩
  else
    let i := RoundingInterval.of x
    (i.search tie 17 i.decade).trim 17

end MetricQuery
