import MetricQuery.Json.Basic
import MetricQuery.Number.Layout

/-!
# Writing JSON

The text of a JSON value with one member or item a line and two blanks of indent a level. Empty
brackets stay together. A number that JSON cannot hold, NaN or an infinity, is written as `null`.
-/

set_option autoImplicit false

namespace MetricQuery

/-- JSON writes numbers from `0.00001` up to sixteen places before the point in plain form, always
with a fraction, and others with an exponent. A number half way between two shortest decimals is
written with the even last digit. -/
def Layout.json : Layout where
  tie := .toEven
  isPlain := fun e => decide (-5 ≤ e ∧ e ≤ 15)
  keepsFraction := true

namespace Json

/-- The text of a number that is not whole by its type. -/
def floatChars (x : Double) : List Char :=
  if x.isFinite then Layout.json.write x else ['n', 'u', 'l', 'l']

/-- The digits of a whole number, with a minus sign before a negative one. -/
def integerChars (n : Int) : List Char :=
  (if n < 0 then ['-'] else []) ++ digitsOf n.natAbs

/-- Two lower-case hexadecimal digits of a number below 256. -/
def hexByte (n : Nat) : List Char :=
  [Nat.digitChar (n / 16), Nat.digitChar (n % 16)]

/-- One character between the quotes of a string. -/
def escape (c : Char) : List Char :=
  if c = '"' then ['\\', '"']
  else if c = '\\' then ['\\', '\\']
  else if c = '\n' then ['\\', 'n']
  else if c = '\r' then ['\\', 'r']
  else if c = '\t' then ['\\', 't']
  else if c.toNat = 0x8 then ['\\', 'b']
  else if c.toNat = 0xc then ['\\', 'f']
  else if c.toNat < 0x20 then ['\\', 'u', '0', '0'] ++ hexByte c.toNat
  else [c]

/-- A text in quotes, with its escapes. -/
def stringChars (s : String) : List Char :=
  '"' :: (s.toList.flatMap escape ++ ['"'])

/-- A line break and the indent of a level. -/
def newline (level : Nat) : List Char :=
  '\n' :: List.replicate (2 * level) ' '

mutual

/-- The text of a value that stands on the given level of indent. -/
def pretty (level : Nat) : Json → List Char
  | null => ['n', 'u', 'l', 'l']
  | bool true => ['t', 'r', 'u', 'e']
  | bool false => ['f', 'a', 'l', 's', 'e']
  | integer n => integerChars n
  | float x => floatChars x
  | string s => stringChars s
  | array [] => ['[', ']']
  | array (j :: js) =>
    '[' :: (newline (level + 1) ++ j.pretty (level + 1) ++ prettyItems (level + 1) js ++
      newline level ++ [']'])
  | object [] => ['{', '}']
  | object ((k, j) :: js) =>
    '{' :: (newline (level + 1) ++ stringChars k ++ [':', ' '] ++ j.pretty (level + 1) ++
      prettyMembers (level + 1) js ++ newline level ++ ['}'])

/-- The items after the first. -/
def prettyItems (level : Nat) : List Json → List Char
  | [] => []
  | j :: js => ',' :: (newline level ++ j.pretty level ++ prettyItems level js)

/-- The members after the first. -/
def prettyMembers (level : Nat) : List (String × Json) → List Char
  | [] => []
  | (k, j) :: js =>
    ',' :: (newline level ++ stringChars k ++ [':', ' '] ++ j.pretty level ++
      prettyMembers level js)

end

/-- The text of a value. -/
def write (j : Json) : List Char :=
  j.pretty 0

end Json

end MetricQuery
