import MetricQuery.Json.Basic
import MetricQuery.Number.Decimal

/-!
# Reading JSON numbers

A number without fraction and exponent is whole when a 64-bit word holds it, except that `-0` keeps
its sign and so is not. Other numbers are read in two steps. Their digits are collected in a 64-bit
significand: digits of the whole part that no longer fit raise the exponent instead, digits of the
fraction that no longer fit are dropped. Then one binary64 operation applies the power of ten.

That operation and the conversion of the significand each round, so the result can differ from the
number nearest to the written decimal.
-/

set_option autoImplicit false

namespace MetricQuery.Json

/-- Why a text is no JSON: it ends too early, or it goes wrong before its end. -/
inductive Fault where
  | truncated | malformed
deriving DecidableEq, Repr

/-- The largest 64-bit significand. -/
def maxSignificand : Nat := 0xffffffffffffffff

/-- The largest exponent that can be written without being out of range by itself. -/
def maxExponent : Nat := 0x7fffffff

/-- The significand after as many of the digits as fit, and how many do not. -/
def collect (significand : Nat) : List Char → Nat × Nat
  | [] => (significand, 0)
  | d :: ds =>
    let next := 10 * significand + (d.toNat - '0'.toNat)
    if next ≤ maxSignificand then collect next ds else (significand, ds.length + 1)

/-- Applies a negative power of ten: `f * 10 ^ e`. Powers below the range are applied in steps of
308 places, and three such steps leave nothing of a 64-bit significand. -/
def shrink : Nat → Double → Int → Double
  | 0, f, _ => f
  | steps + 1, f, e =>
    if -308 ≤ e then f.div (Double.powerOfTen (-e).toNat)
    else if f.isZero then f
    else shrink steps (f.div (Double.powerOfTen 308)) (e + 308)

/-- `significand * 10 ^ e` with one rounding for each factor and one for the product. A number that
becomes infinite is out of range. -/
def scale (significand : Nat) (e : Int) : Except Fault Double :=
  let f := Double.ofNat significand
  if 0 ≤ e then
    if e ≤ 308 then
      let x := f.mul (Double.powerOfTen e.toNat)
      if x.isInfinite then .error .malformed else .ok x
    else if significand = 0 then .ok f
    else .error .malformed
  else .ok (shrink 4 f e)

/-- The number with its sign. -/
def signed (negative : Bool) (x : Double) : Json :=
  .float (if negative then x.negate else x)

/-- Reads the exponent behind its letter and finishes the number. -/
def readExponent (negative : Bool) (significand : Nat) (e : Int) (text : List Char) :
    Except Fault (Json × List Char) :=
  let (down, text) :=
    match text with
    | '+' :: rest => (false, rest)
    | '-' :: rest => (true, rest)
    | rest => (false, rest)
  match text with
  | [] => .error .truncated
  | c :: rest =>
    if c.isDigit then
      let (ds, rest) := Decimal.spanDigits (c :: rest)
      let n := numberOfDigits ds
      if n ≤ maxExponent then do
        let x ← scale significand (if down then e - n else e + n)
        return (signed negative x, rest)
      else if significand ≠ 0 ∧ !down then .error .malformed
      else .ok (signed negative (Double.zero false), rest)
    else .error .malformed

/-- Reads an exponent, if there is one, and finishes the number. -/
def readTail (negative : Bool) (significand : Nat) (e : Int) (text : List Char) :
    Except Fault (Json × List Char) :=
  match text with
  | c :: rest =>
    if c = 'e' ∨ c = 'E' then readExponent negative significand e rest
    else do return (signed negative (← scale significand e), c :: rest)
  | [] => do return (signed negative (← scale significand e), [])

/-- Reads the fraction behind its point and finishes the number. -/
def readFraction (negative : Bool) (significand : Nat) (e : Int) (text : List Char) :
    Except Fault (Json × List Char) :=
  match Decimal.spanDigits text with
  | ([], []) => .error .truncated
  | ([], _ :: _) => .error .malformed
  | (ds, rest) =>
    let (s, dropped) := collect significand ds
    readTail negative s (e - (ds.length - dropped : Nat)) rest

/-- A whole number, when its sign and size allow one. -/
def whole (negative : Bool) (significand : Nat) : Json :=
  if !negative then .integer significand
  else if significand = 0 ∨ Double.signBit < significand then
    .float (Double.ofNat significand).negate
  else .integer (-(significand : Int))

/-- Finishes a number whose whole part is read: `skipped` of its digits did not fit. -/
def readPoint (negative : Bool) (significand skipped : Nat) (text : List Char) :
    Except Fault (Json × List Char) :=
  match text with
  | '.' :: rest => readFraction negative significand skipped rest
  | 'e' :: rest => readExponent negative significand skipped rest
  | 'E' :: rest => readExponent negative significand skipped rest
  | rest =>
    if skipped = 0 then .ok (whole negative significand, rest)
    else do return (signed negative (← scale significand skipped), rest)

/-- Reads a number behind its minus sign, if it has one. A zero has no digits after it. -/
def readNumber (negative : Bool) (text : List Char) : Except Fault (Json × List Char) :=
  match text with
  | [] => .error .truncated
  | '0' :: rest =>
    match rest with
    | d :: _ => if d.isDigit then .error .malformed else readPoint negative 0 0 rest
    | [] => readPoint negative 0 0 rest
  | c :: rest =>
    if c.isDigit then
      let (ds, rest) := Decimal.spanDigits (c :: rest)
      let (significand, skipped) := collect 0 ds
      readPoint negative significand skipped rest
    else .error .malformed

end MetricQuery.Json
