import MetricQuery.Toml.Moment
import MetricQuery.Toml.Number
import MetricQuery.Toml.Table

/-!
# Reading TOML values

A value is a string, a number, a truth value, a moment, an array or a table in braces. An array may
run over several lines and end with a comma; a table in braces stays on its line and may not.
Brackets nest to a bounded depth.
-/

set_option autoImplicit false

namespace MetricQuery.Toml

/-- A reader of values. -/
abbrev Reader (α : Type) := List Char → Option (α × List Char)

/-- The items of an array, up to its closing bracket. -/
def readItems? (value : Reader Value) : Nat → Reader (List Value)
  | 0, _ => none
  | steps + 1, text =>
    match skipSpace text with
    | ']' :: rest => some ([], rest)
    | text => do
      let (v, rest) ← value text
      match skipSpace rest with
      | ']' :: rest => return ([v], rest)
      | ',' :: rest =>
        let (vs, rest) ← readItems? value steps rest
        return (v :: vs, rest)
      | _ => none

/-- One entry of a table in braces, added to those before it. -/
def readEntry? (value : Reader Value) (entries : Entries) : Reader Entries := fun text => do
  let (key, rest) ← readKey? text
  match rest with
  | '=' :: rest =>
    let (v, rest) ← value (skipBlanks rest)
    return (← addEntry key v .inline entries, skipBlanks rest)
  | _ => none

/-- The entries of a table in braces up to its closing one, added to those before them. -/
def readEntries? (value : Reader Value) : Nat → Entries → Reader Entries
  | 0, _, _ => none
  | steps + 1, entries, text => do
    let (entries, rest) ← readEntry? value entries text
    match rest with
    | '}' :: rest => return (entries, rest)
    | ',' :: rest => readEntries? value steps entries rest
    | _ => none

/-- A table behind its opening brace. -/
def readTable? (value : Reader Value) (text : List Char) : Option (Value × List Char) :=
  match skipBlanks text with
  | '}' :: rest => some (.table .inline [], rest)
  | text => do
    let (entries, rest) ← readEntries? value (text.length + 1) [] text
    return (.table .inline entries, rest)

/-- A value other than an array or a table. -/
def readSimple? (text : List Char) : Option (Value × List Char) :=
  match text with
  | [] => none
  | c :: _ =>
    if c = '"' ∨ c = '\'' then do
      let (s, rest) ← readText? text
      return (.string (String.ofList s), rest)
    else if c = 't' then do return (.scalar, ← word? ['t', 'r', 'u', 'e'] text)
    else if c = 'f' then do return (.scalar, ← word? ['f', 'a', 'l', 's', 'e'] text)
    else if startsMoment text then do return (.moment, ← readMoment? text)
    else do return (.scalar, ← readNumber? text)

/-- A value with at most `depth` brackets around any of its parts. -/
def readValue? : Nat → Reader Value
  | 0, text =>
    match text with
    | '[' :: _ => none
    | '{' :: _ => none
    | text => readSimple? text
  | depth + 1, text =>
    match text with
    | '[' :: rest => do
      let (vs, rest) ← readItems? (readValue? depth) (rest.length + 1) rest
      return (.array vs, rest)
    | '{' :: rest => readTable? (readValue? depth) rest
    | text => readSimple? text

/-- How many brackets may be open at once. -/
def nestingLimit : Nat := 79

end MetricQuery.Toml
