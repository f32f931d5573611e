import MetricQuery.Number.Rounding

/-!
# Decimals

A decimal is a natural number of units of a power of ten. This module reads decimals from text,
rounds them to binary64, and writes them in the two layouts the project needs: all places written
out, or a leading digit with an exponent.
-/

set_option autoImplicit false

namespace MetricQuery

/-- `digits * 10 ^ exponent`. -/
structure Decimal where
  digits : Nat
  exponent : Int
deriving DecidableEq, Repr

/-- The decimal digits of a number, zero as one digit. -/
def digitsOf (n : Nat) : List Char :=
  Nat.toDigits 10 n

/-- The number a list of digits stands for. -/
def numberOfDigits (ds : List Char) : Nat :=
  ds.foldl (fun n d => 10 * n + (d.toNat - '0'.toNat)) 0

namespace Decimal

/-- The exponent of the leading digit. -/
def leading (d : Decimal) : Int :=
  (digitsOf d.digits).length - 1 + d.exponent

/-- All places written out, without an exponent: `1200`, `0.05`, `3.25`. -/
def plain (d : Decimal) : List Char :=
  let ds := digitsOf d.digits
  if 0 ≤ d.exponent then ds ++ List.replicate d.exponent.toNat '0'
  else
    let places := (-d.exponent).toNat
    if places < ds.length then
      ds.take (ds.length - places) ++ '.' :: ds.drop (ds.length - places)
    else '0' :: '.' :: (List.replicate (places - ds.length) '0' ++ ds)

/-- One digit before the point, then the exponent with its sign: `1e+16`, `2.5e-7`. -/
def scientific (d : Decimal) : List Char :=
  let e := d.leading
  let mantissa :=
    match digitsOf d.digits with
    | [] => []
    | first :: [] => [first]
    | first :: others => first :: '.' :: others
  mantissa ++ 'e' :: (if e < 0 then '-' else '+') :: digitsOf e.natAbs

/-- The nearest binary64 number, with the given sign. Exponents far out of range are settled
without computing the power. -/
def toDouble (negative : Bool) (d : Decimal) : Double :=
  if d.digits = 0 then Double.zero negative
  else if 400 < d.exponent then Double.infinity negative
  else if d.leading < -400 then Double.zero negative
  else if 0 ≤ d.exponent then Double.ofRatio negative (d.digits * tenPow d.exponent.toNat) 1
  else Double.ofRatio negative d.digits (tenPow (-d.exponent).toNat)

/-- The digits at the head of a text, and what follows them. -/
def spanDigits (text : List Char) : List Char × List Char :=
  (text.takeWhile Char.isDigit, text.dropWhile Char.isDigit)

/-- The exponent written at the head of a text, zero when there is none. -/
def readExponent? : List Char → Option (Int × List Char)
  | c :: rest =>
    if c = 'e' ∨ c = 'E' then
      let (negative, rest) :=
        match rest with
        | '-' :: r => (true, r)
        | '+' :: r => (false, r)
        | r => (false, r)
      let (ds, rest) := spanDigits rest
      if ds = [] then none
      else
        let n : Int := numberOfDigits ds
        some (if negative then -n else n, rest)
    else some (0, c :: rest)
  | [] => some (0, [])

/-- Reads `12`, `1.5`, `.5`, `2e3` and `2.5E-3`, the whole text. -/
def ofText? (text : List Char) : Option Decimal :=
  let (whole, rest) := spanDigits text
  let (fraction, rest) :=
    match rest with
    | '.' :: r => spanDigits r
    | r => ([], r)
  if whole ++ fraction = [] then none
  else
    match readExponent? rest with
    | some (e, []) => some ⟨numberOfDigits (whole ++ fraction), e - fraction.length⟩
    | _ => none

end Decimal

namespace Double

/-- Reads a decimal with an optional sign as the nearest binary64 number. -/
def ofText? (text : List Char) : Option Double :=
  match text with
  | '-' :: rest => (Decimal.ofText? rest).map (Decimal.toDouble true)
  | '+' :: rest => (Decimal.ofText? rest).map (Decimal.toDouble false)
  | rest => (Decimal.ofText? rest).map (Decimal.toDouble false)

end Double

end MetricQuery
