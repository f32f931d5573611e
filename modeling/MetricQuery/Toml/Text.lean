import MetricQuery.Json.Reader
import MetricQuery.Toml.Blank

/-!
# TOML strings

The four forms of strings: between single quotes characters stand for themselves, between double
quotes a backslash starts an escape, and three quotes of either sort enclose a string over several
lines. Such a string drops a line end right behind its opening, keeps every other one as a line
feed, and may end with one or two quotes of its own before the closing three.
-/

set_option autoImplicit false

namespace MetricQuery.Toml

/-- The number of exactly `n` hexadecimal digits at the head of a text. -/
def readHex? : Nat → Nat → List Char → Option (Nat × List Char)
  | 0, value, text => some (value, text)
  | n + 1, value, c :: text =>
    match Json.hexValue? c with
    | some d => readHex? n (16 * value + d) text
    | none => none
  | _ + 1, _, [] => none

/-- The character with a code point given in `n` hexadecimal digits. -/
def readCodePoint? (n : Nat) (text : List Char) : Option (Char × List Char) := do
  let (value, rest) ← readHex? n 0 text
  if value.isValidChar then some (Char.ofNat value, rest) else none

/-- The character of an escape, behind its backslash. -/
def readEscape? : List Char → Option (Char × List Char)
  | 'b' :: rest => some ('\x08', rest)
  | 'f' :: rest => some ('\x0c', rest)
  | 'n' :: rest => some ('\n', rest)
  | 'r' :: rest => some ('\r', rest)
  | 't' :: rest => some ('\t', rest)
  | '"' :: rest => some ('"', rest)
  | '\\' :: rest => some ('\\', rest)
  | 'u' :: rest => readCodePoint? 4 rest
  | 'U' :: rest => readCodePoint? 8 rest
  | _ => none

/-- A string in double quotes, behind the opening one. Each step takes a character, so the text's
length bounds the steps. -/
def readBasic? : Nat → List Char → Option (List Char × List Char)
  | steps + 1, c :: text =>
    if c = '"' then some ([], text)
    else if c = '\\' then do
      let (e, rest) ← readEscape? text
      let (s, rest) ← readBasic? steps rest
      return (e :: s, rest)
    else if isPlain c then do
      let (s, rest) ← readBasic? steps text
      return (c :: s, rest)
    else none
  | _, _ => none

/-- A string in single quotes, behind the opening one. -/
def readLiteral? : List Char → Option (List Char × List Char)
  | [] => none
  | c :: text =>
    if c = '\'' then some ([], text)
    else if isPlain c then do
      let (s, rest) ← readLiteral? text
      return (c :: s, rest)
    else none

/-- The end of a string over several lines, behind the first of its closing quotes: two more quotes
close it, and up to two others before them belong to it. -/
def closing? (quote : Char) (text : List Char) : Option (List Char × List Char) :=
  match text with
  | a :: b :: rest =>
    if a = quote ∧ b = quote then
      match rest with
      | c :: d :: more =>
        if c = quote then
          if d = quote then some ([quote, quote], more) else some ([quote], d :: more)
        else some ([], c :: d :: more)
      | [c] => if c = quote then some ([quote], []) else some ([], [c])
      | [] => some ([], [])
    else none
  | _ => none

/-- Skips the white space that a backslash at the end of a line takes with it. -/
def continuation? (text : List Char) : Option (List Char) := do
  let rest ← newline? (skipBlanks text)
  return skipLines rest

/-- A string over several lines in double quotes, behind its opening. -/
def readBasicLines? : Nat → List Char → Option (List Char × List Char)
  | steps + 1, c :: text =>
    if c = '"' then
      match closing? '"' text with
      | some done => some done
      | none => do
        let (s, rest) ← readBasicLines? steps text
        return (c :: s, rest)
    else if c = '\\' then
      match continuation? text with
      | some rest => readBasicLines? steps rest
      | none => do
        let (e, rest) ← readEscape? text
        let (s, rest) ← readBasicLines? steps rest
        return (e :: s, rest)
    else
      match newline? (c :: text) with
      | some rest => do
        let (s, rest) ← readBasicLines? steps rest
        return ('\n' :: s, rest)
      | none =>
        if isPlain c then do
          let (s, rest) ← readBasicLines? steps text
          return (c :: s, rest)
        else none
  | _, _ => none

/-- A string over several lines in single quotes, behind its opening. -/
def readLiteralLines? : Nat → List Char → Option (List Char × List Char)
  | steps + 1, c :: text =>
    if c = '\'' then
      match closing? '\'' text with
      | some done => some done
      | none => do
        let (s, rest) ← readLiteralLines? steps text
        return (c :: s, rest)
    else
      match newline? (c :: text) with
      | some rest => do
        let (s, rest) ← readLiteralLines? steps rest
        return ('\n' :: s, rest)
      | none =>
        if isPlain c then do
          let (s, rest) ← readLiteralLines? steps text
          return (c :: s, rest)
        else none
  | _, _ => none

/-- A line end right behind the opening is not part of the string. -/
def dropNewline (text : List Char) : List Char :=
  (newline? text).getD text

/-- A string of any form. -/
def readText? : List Char → Option (List Char × List Char)
  | '"' :: '"' :: '"' :: text => readBasicLines? text.length (dropNewline text)
  | '\'' :: '\'' :: '\'' :: text => readLiteralLines? text.length (dropNewline text)
  | '"' :: text => readBasic? text.length text
  | '\'' :: text => readLiteral? text
  | _ => none

end MetricQuery.Toml
