/-!
# White space and comments

What stands between the words of a TOML text. A line ends with a line feed, with a carriage return
before it or not, or with the text. A comment runs to the end of its line and holds no control
character except the tab.
-/

set_option autoImplicit false

namespace MetricQuery.Toml

/-- White space within a line. -/
def isBlank (c : Char) : Bool :=
  c = ' ' || c = '\t'

/-- The text without the blanks and tabs before it. -/
def skipBlanks (text : List Char) : List Char :=
  text.dropWhile isBlank

/-- A character that is no control character, or a tab. -/
def isPlain (c : Char) : Bool :=
  c = '\t' || (decide (0x20 ≤ c.toNat) && decide (c.toNat ≠ 0x7f))

/-- What follows the end of a line. -/
def newline? : List Char → Option (List Char)
  | '\n' :: rest => some rest
  | '\r' :: '\n' :: rest => some rest
  | _ => none

/-- What follows the end of a line or is the end of the text. -/
def endLine? : List Char → Option (List Char)
  | [] => some []
  | text => newline? text

/-- The text behind a comment at its head. -/
def skipComment : List Char → List Char
  | '#' :: rest => rest.dropWhile isPlain
  | text => text

/-- Nothing but white space and a comment may stand before the end of a line. -/
def finishLine? (text : List Char) : Option (List Char) :=
  endLine? (skipComment (skipBlanks text))

/-- White space over any number of lines. -/
def skipLines : List Char → List Char
  | '\r' :: '\n' :: rest => skipLines rest
  | c :: rest => if isBlank c || c = '\n' then skipLines rest else c :: rest
  | [] => []

/-- White space and comments over any number of lines, from inside a comment or not. -/
def skipSpaceFrom (comment : Bool) : List Char → List Char
  | '\r' :: '\n' :: rest => skipSpaceFrom false rest
  | c :: rest =>
    if c = '\n' then skipSpaceFrom false rest
    else if comment then if isPlain c then skipSpaceFrom true rest else c :: rest
    else if isBlank c then skipSpaceFrom false rest
    else if c = '#' then skipSpaceFrom true rest
    else c :: rest
  | [] => []

/-- White space and comments between the items of an array. -/
def skipSpace (text : List Char) : List Char :=
  skipSpaceFrom false text

end MetricQuery.Toml
