import MetricQuery.Number.Binary64

/-!
# Rounding to binary64

Every number the project computes is the nearest binary64 number to an exact ratio of natural
numbers, a tie going to the even significand. `Double.ofRatio` is that rounding; reading a decimal,
multiplying and dividing are each one use of it.

The grid of binary64 numbers near a ratio has a step of `2 ^ e`, where `e` keeps 53 significant
bits but never falls below `-1074`. A significand on that grid and the step give the bit pattern
by one sum, in which a carry out of the significand moves to the next exponent by itself.
-/

set_option autoImplicit false

namespace MetricQuery

/-- `2 ^ n`. -/
def twoPow (n : Nat) : Nat := Nat.pow 2 n

/-- `10 ^ n`. -/
def tenPow (n : Nat) : Nat := Nat.pow 10 n

/-- `num / den` rounded to a whole number, a tie to the even one. -/
def roundDiv (num den : Nat) : Nat :=
  let floor := num / den
  let rest := num % den
  if 2 * rest < den then floor
  else if den < 2 * rest then floor + 1
  else if floor % 2 = 0 then floor else floor + 1

/-- `num / den * 2 ^ shift` as a ratio of natural numbers. -/
def shiftRatio (num den : Nat) (shift : Int) : Nat × Nat :=
  if 0 ≤ shift then (num * twoPow shift.toNat, den) else (num, den * twoPow (-shift).toNat)

namespace Double

/-- The greatest `e` with `2 ^ e ≤ num / den`, for positive `num` and `den`. -/
def binade (num den : Nat) : Int :=
  let guess : Int := (Nat.log2 num : Int) - Nat.log2 den
  let (a, b) := shiftRatio num den (-guess)
  -- The two logarithms drop fractions, so the guess is right or one too high.
  if b ≤ a then guess else guess - 1

/-- The exponent of the grid on which the numbers near `num / den` lie. -/
def gridExponent (num den : Nat) : Int :=
  max (binade num den - 52) (-1074)

/-- The binary64 number nearest to `num / den`, with the given sign. What lies beyond the largest
finite number by half a step or more is infinite. -/
def ofRatio (negative : Bool) (num den : Nat) : Double :=
  if num = 0 then zero negative
  else
    let e := gridExponent num den
    let (a, b) := shiftRatio num den (-e)
    let magnitude := (e + 1074).toNat * hiddenBit + roundDiv a b
    ofMagnitude negative (min magnitude infiniteMagnitude)

/-- The double nearest to a natural number. -/
def ofNat (n : Nat) : Double :=
  ofRatio false n 1

/-- The absolute value of a finite number as an exact ratio. -/
def ratio (x : Double) : Nat × Nat :=
  shiftRatio x.significand 1 x.exponent

/-- The product of two finite numbers. -/
def mul (x y : Double) : Double :=
  ofRatio (x.isNegative != y.isNegative) (x.ratio.1 * y.ratio.1) (x.ratio.2 * y.ratio.2)

/-- The quotient of two finite numbers, the second not zero. -/
def div (x y : Double) : Double :=
  ofRatio (x.isNegative != y.isNegative) (x.ratio.1 * y.ratio.2) (x.ratio.2 * y.ratio.1)

/-- The binary64 number nearest to `10 ^ n`. -/
def powerOfTen (n : Nat) : Double :=
  ofNat (tenPow n)

/-- The double with the other sign. -/
def negate (x : Double) : Double :=
  ofMagnitude (!x.isNegative) x.magnitude

end Double

end MetricQuery
