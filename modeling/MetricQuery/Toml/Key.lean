import MetricQuery.Toml.Text

/-!
# TOML keys

A key is one name or several with dots between them, and leads from a table through its subtables
to an entry. A name is bare or a string on one line.
-/

set_option autoImplicit false

namespace MetricQuery.Toml

/-- The names before the last one, and the last one. -/
structure Key where
  path : List String
  name : String

/-- All names of a key. -/
def Key.names (key : Key) : List String :=
  key.path ++ [key.name]

/-- A character of a key without quotes. -/
def isBare (c : Char) : Bool :=
  c.isAlphanum || c = '-' || c = '_'

/-- One name. -/
def readName? (text : List Char) : Option (String × List Char) :=
  match text with
  | '"' :: text => do
    let (s, rest) ← readBasic? text.length text
    return (String.ofList s, rest)
  | '\'' :: text => do
    let (s, rest) ← readLiteral? text
    return (String.ofList s, rest)
  | text =>
    match text.takeWhile isBare with
    | [] => none
    | s => some (String.ofList s, text.dropWhile isBare)

/-- How many names a key may have. -/
def keyLimit : Nat := 79

/-- The names of a key, with white space around each; at most `limit` of them. -/
def readNames? : Nat → List Char → Option (Key × List Char)
  | 0, _ => none
  | limit + 1, text => do
    let (name, rest) ← readName? (skipBlanks text)
    match skipBlanks rest with
    | '.' :: rest =>
      let (key, rest) ← readNames? limit rest
      return (⟨name :: key.path, key.name⟩, rest)
    | rest => return (⟨[], name⟩, rest)

/-- A key at the head of the text: names with points between them. -/
def readKey? (text : List Char) : Option (Key × List Char) :=
  readNames? keyLimit text

end MetricQuery.Toml
