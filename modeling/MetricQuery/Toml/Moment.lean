/-!
# TOML dates and times

A moment is a date, a time, or a date and a time with an optional offset from universal time. The
readers check that the parts are in range, that the day exists in its month, and return what
follows. A minute may have a leap second.
-/

set_option autoImplicit false

namespace MetricQuery.Toml

/-- The number of exactly `n` digits at the head of a text. -/
def readDigits? : Nat → Nat → List Char → Option (Nat × List Char)
  | 0, value, text => some (value, text)
  | n + 1, value, c :: text =>
    if c.isDigit then readDigits? n (10 * value + (c.toNat - '0'.toNat)) text else none
  | _ + 1, _, [] => none

/-- Two digits in a range. -/
def readPart? (low high : Nat) (text : List Char) : Option (Nat × List Char) := do
  let (value, rest) ← readDigits? 2 0 text
  if low ≤ value ∧ value ≤ high then some (value, rest) else none

/-- The text behind a character at its head. -/
def expect? (c : Char) : List Char → Option (List Char)
  | d :: rest => if d = c then some rest else none
  | [] => none

/-- Whether a year has a day more. -/
def isLeapYear (year : Nat) : Bool :=
  decide (year % 4 = 0) && (decide (year % 100 ≠ 0) || decide (year % 400 = 0))

/-- How many days a month has. -/
def daysInMonth (year month : Nat) : Nat :=
  match month with
  | 2 => if isLeapYear year then 29 else 28
  | 4 | 6 | 9 | 11 => 30
  | _ => 31

/-- The text behind a date at its head. -/
def readDate? (text : List Char) : Option (List Char) := do
  let (year, rest) ← readDigits? 4 0 text
  let (month, rest) ← readPart? 1 12 (← expect? '-' rest)
  let (day, rest) ← readPart? 1 31 (← expect? '-' rest)
  if day ≤ daysInMonth year month then some rest else none

/-- Fractions of a second, if there are any. -/
def skipFraction (text : List Char) : List Char :=
  match text with
  | '.' :: d :: rest => if d.isDigit then rest.dropWhile Char.isDigit else text
  | _ => text

/-- The text behind a time at its head. -/
def readTime? (text : List Char) : Option (List Char) := do
  let (_, rest) ← readPart? 0 23 text
  let (_, rest) ← readPart? 0 59 (← expect? ':' rest)
  let (_, rest) ← readPart? 0 60 (← expect? ':' rest)
  return skipFraction rest

/-- The offset from universal time, if there is one. -/
def readOffset? : List Char → Option (List Char)
  | c :: rest =>
    if c = 'Z' ∨ c = 'z' then some rest
    else if c = '+' ∨ c = '-' then do
      let (_, rest) ← readPart? 0 23 rest
      let (_, rest) ← readPart? 0 59 (← expect? ':' rest)
      return rest
    else some (c :: rest)
  | [] => some []

/-- Whether a time starts here, told by its hour and the colon behind it. -/
def startsTime (text : List Char) : Bool :=
  match readPart? 0 23 text with
  | some (_, ':' :: _) => true
  | _ => false

/-- A time behind a date, if one follows. -/
def readClock? (text : List Char) : Option (List Char) :=
  match text with
  | c :: rest =>
    if (c = 'T' ∨ c = 't' ∨ c = ' ') ∧ startsTime rest then do
      readOffset? (← readTime? rest)
    else some text
  | [] => some []

/-- Whether a date starts here, told by its year and the mark behind it. -/
def startsDate (text : List Char) : Bool :=
  match readDigits? 4 0 text with
  | some (_, '-' :: _) => true
  | _ => false

/-- A moment; a text that starts like one must be one. -/
def readMoment? (text : List Char) : Option (List Char) := do
  if startsDate text then readClock? (← readDate? text) else readTime? text

/-- Whether a text begins like a date or a time. -/
def startsMoment (text : List Char) : Bool :=
  startsDate text || startsTime text

end MetricQuery.Toml
