import MetricQuery.Json.Reader
import MetricQuery.Number.Decimal

/-!
# TOML numbers

A number is well formed when single underscores stand between digits only, when its whole part has
no needless zero in front, when a whole number fits 64 bits with a sign, and when a number with
fraction or exponent does not exceed the range of binary64. The readers return what follows a
number.
-/

set_option autoImplicit false

namespace MetricQuery.Toml

/-- Digits behind a first one, without their underscores. -/
def moreDigits? (isDigit : Char → Bool) : List Char → Option (List Char × List Char)
  | [] => some ([], [])
  | ['_'] => none
  | '_' :: c :: rest =>
    if isDigit c then do
      let (ds, rest) ← moreDigits? isDigit rest
      return (c :: ds, rest)
    else none
  | c :: rest =>
    if isDigit c then do
      let (ds, rest) ← moreDigits? isDigit rest
      return (c :: ds, rest)
    else some ([], c :: rest)

/-- One or more digits, without their underscores. -/
def digits? (isDigit : Char → Bool) : List Char → Option (List Char × List Char)
  | c :: rest =>
    if isDigit c then do
      let (ds, rest) ← moreDigits? isDigit rest
      return (c :: ds, rest)
    else none
  | [] => none

/-- The digits of a whole number: a zero alone, or any that start with another digit. -/
def wholeDigits? : List Char → Option (List Char × List Char)
  | '0' :: rest => some (['0'], rest)
  | text => digits? Char.isDigit text

/-- A sign, if there is one. -/
def readSign : List Char → Bool × List Char
  | '-' :: rest => (true, rest)
  | '+' :: rest => (false, rest)
  | text => (false, text)

/-- The fraction behind a point. -/
def readFraction? : List Char → Option (List Char × List Char)
  | '.' :: rest => digits? Char.isDigit rest
  | text => some ([], text)

/-- The exponent, zero when there is none. -/
def readExponent? : List Char → Option (Int × List Char)
  | c :: rest =>
    if c = 'e' ∨ c = 'E' then do
      let (negative, rest) := readSign rest
      let (ds, rest) ← digits? Char.isDigit rest
      let n : Int := numberOfDigits ds
      return (if negative then -n else n, rest)
    else some (0, c :: rest)
  | [] => some (0, [])

/-- Whether a 64-bit word with a sign holds a whole number. -/
def fitsWord (negative : Bool) (n : Nat) : Bool :=
  if negative then decide (n ≤ 0x8000000000000000) else decide (n < 0x8000000000000000)

/-- Whether a text goes on with a fraction or an exponent. -/
def isFractional : List Char → Bool
  | c :: _ => c = '.' || c = 'e' || c = 'E'
  | [] => false

/-- A decimal number behind its sign. Only numbers above the range are refused: below it they
become negative infinity. -/
def readDecimal? (negative : Bool) (text : List Char) : Option (List Char) := do
  let (whole, rest) ← wholeDigits? text
  if isFractional rest then
    let (fraction, rest) ← readFraction? rest
    let (e, rest) ← readExponent? rest
    let d : Decimal := ⟨numberOfDigits (whole ++ fraction), e - fraction.length⟩
    if !negative && (d.toDouble false).isInfinite then none else some rest
  else if fitsWord negative (numberOfDigits whole) then some rest
  else none

/-- A whole number in another base, behind its mark. -/
def readBased? (base : Nat) (text : List Char) : Option (List Char) := do
  let value := fun (c : Char) => (Json.hexValue? c).filter fun d => decide (d < base)
  let (ds, rest) ← digits? (fun c => (value c).isSome) text
  let n := ds.foldl (fun n c => base * n + (value c).getD 0) 0
  if fitsWord false n then some rest else none

/-- The given word at the head of a text. -/
def word? : List Char → List Char → Option (List Char)
  | [], text => some text
  | w :: ws, c :: text => if c = w then word? ws text else none
  | _ :: _, [] => none

/-- A number of any form. -/
def readNumber? (text : List Char) : Option (List Char) :=
  match text with
  | '0' :: 'x' :: rest => readBased? 16 rest
  | '0' :: 'o' :: rest => readBased? 8 rest
  | '0' :: 'b' :: rest => readBased? 2 rest
  | text =>
    let (negative, rest) := readSign text
    match rest with
    | 'i' :: 'n' :: 'f' :: rest => some rest
    | 'n' :: 'a' :: 'n' :: rest => some rest
    | rest => readDecimal? negative rest

end MetricQuery.Toml
