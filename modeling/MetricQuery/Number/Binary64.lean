/-!
# Binary64 numbers

A number literal of a query is a 64-bit floating-point number. The type here is its bit pattern,
so that negative zero and every kind of NaN stay apart, and the functions read the pattern as a
sign, a significand and a binary exponent: a finite number is `± significand * 2 ^ exponent`.

All arithmetic of the project on such numbers is exact arithmetic on `Nat` followed by one
rounding (`MetricQuery.Number.Rounding`), so that it can be reasoned about.
-/

set_option autoImplicit false

namespace MetricQuery

/-- A 64-bit floating-point number, as its bit pattern. -/
structure Double where
  /-- Sign, then eleven bits of exponent, then 52 bits of fraction. -/
  bits : Nat
  bits_lt : bits < 0x10000000000000000
deriving DecidableEq

namespace Double

/-- The place of the sign: all patterns below it are positive. -/
def signBit : Nat := 0x8000000000000000

/-- The place of the leading one of a significand, which the pattern leaves out. -/
def hiddenBit : Nat := 0x10000000000000

/-- The number with the given sign whose remaining 63 bits are `magnitude`. -/
def ofMagnitude (negative : Bool) (magnitude : Nat) : Double :=
  ⟨(if negative then signBit else 0) + magnitude % signBit, by unfold signBit; split <;> omega⟩

/-- All bits but the sign. On numbers that are not NaN it grows with the absolute value. -/
def magnitude (x : Double) : Nat :=
  x.bits % signBit

/-- Whether the sign bit is set. -/
def isNegative (x : Double) : Bool :=
  decide (signBit ≤ x.bits)

/-- The biased exponent. -/
def exponentField (x : Double) : Nat :=
  x.bits / hiddenBit % 2048

/-- The stored bits of the significand. -/
def fraction (x : Double) : Nat :=
  x.bits % hiddenBit

/-- The magnitude of infinity: the exponent is all ones and the fraction is zero. -/
def infiniteMagnitude : Nat :=
  2047 * hiddenBit

/-- The infinity of a sign. -/
def infinity (negative : Bool) : Double :=
  ofMagnitude negative infiniteMagnitude

/-- One NaN among many: they all print alike. -/
def nan : Double :=
  ofMagnitude false (infiniteMagnitude + hiddenBit / 2)

/-- The zero of a sign. -/
def zero (negative : Bool) : Double :=
  ofMagnitude negative 0

/-- Neither infinite nor NaN. -/
def isFinite (x : Double) : Bool :=
  decide (x.magnitude < infiniteMagnitude)

/-- Whether a double is one of the two infinities. -/
def isInfinite (x : Double) : Bool :=
  decide (x.magnitude = infiniteMagnitude)

/-- Whether a double is not a number. -/
def isNaN (x : Double) : Bool :=
  decide (infiniteMagnitude < x.magnitude)

/-- Whether a double is one of the two zeros. -/
def isZero (x : Double) : Bool :=
  decide (x.magnitude = 0)

/-- The significand of a finite number as a natural number. The leading one of a normal number is
not stored; a subnormal number has none. -/
def significand (x : Double) : Nat :=
  if x.exponentField = 0 then x.fraction else hiddenBit + x.fraction

/-- The exponent of the significand's last binary place. -/
def exponent (x : Double) : Int :=
  (max x.exponentField 1 : Nat) - 1075

/-- The same number without its sign. -/
def abs (x : Double) : Double :=
  ofMagnitude false x.magnitude

/-- Numeric equality: NaN equals nothing, and the two zeros equal each other. -/
def same (x y : Double) : Bool :=
  !x.isNaN && !y.isNaN && (decide (x = y) || x.isZero && y.isZero)

/-- Doubles with the same bits are the same. -/
theorem ext_bits {x y : Double} (h : x.bits = y.bits) : x = y := by
  cases x; cases y; simp_all

/-- Without its sign bit a double has 63 bits. -/
theorem magnitude_lt (x : Double) : x.magnitude < signBit :=
  Nat.mod_lt _ (by decide)

/-- A number is its sign and its magnitude. -/
theorem ofMagnitude_isNegative_magnitude (x : Double) :
    ofMagnitude x.isNegative x.magnitude = x := by
  apply ext_bits
  have := x.bits_lt
  by_cases h : signBit ≤ x.bits
  · simp only [ofMagnitude, isNegative, magnitude, h, decide_true, if_true]
    simp only [signBit] at h ⊢
    omega
  · simp only [ofMagnitude, isNegative, magnitude, h, decide_false]
    simp only [signBit] at h ⊢
    simp
    omega

/-- A magnitude of 63 bits comes back from the double that it is put in. -/
@[simp]
theorem magnitude_ofMagnitude (negative : Bool) (m : Nat) (h : m < signBit) :
    (ofMagnitude negative m).magnitude = m := by
  simp only [signBit] at h
  simp only [ofMagnitude, magnitude, signBit]
  split <;> omega

/-- The sign of a double that is put together is the one that it is given. -/
@[simp]
theorem isNegative_ofMagnitude (negative : Bool) (m : Nat) :
    (ofMagnitude negative m).isNegative = negative := by
  have := Nat.mod_lt m (show 0 < signBit by decide)
  cases negative
  · simpa [ofMagnitude, isNegative] using this
  · simp [ofMagnitude, isNegative]

end Double

end MetricQuery
