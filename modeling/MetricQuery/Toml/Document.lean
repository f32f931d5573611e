import MetricQuery.Toml.Value

/-!
# TOML documents

A document is read line by line: an empty line, a comment, a header or an entry. A header tells to
which table the entries after it belong.
-/

set_option autoImplicit false

namespace MetricQuery.Toml

/-- A document as far as it is read. -/
structure Document where
  entries : Entries := []
  /-- The names that lead to the table of the last header. -/
  current : List String := []

namespace Document

/-- A header behind its first bracket, and the rest of its line. -/
def readHeader? (doc : Document) (text : List Char) : Option (Document × List Char) :=
  match text with
  | '[' :: text => do
    let (key, rest) ← readKey? text
    match rest with
    | ']' :: ']' :: rest => return (⟨← openElement key doc.entries, key.names⟩, ← finishLine? rest)
    | _ => none
  | text => do
    let (key, rest) ← readKey? text
    match rest with
    | ']' :: rest => return (⟨← openTable key doc.entries, key.names⟩, ← finishLine? rest)
    | _ => none

/-- An entry of the current table, and the rest of its line. -/
def readEntry? (doc : Document) (text : List Char) : Option (Document × List Char) := do
  let (key, rest) ← readKey? text
  match rest with
  | '=' :: rest =>
    let (v, rest) ← readValue? nestingLimit (skipBlanks rest)
    let rest ← finishLine? rest
    let entries ← descend false (addEntry key v) doc.current .header doc.entries
    return ({ doc with entries }, rest)
  | _ => none

/-- All lines. Each takes at least one character, so the text's length bounds their number. -/
def readLines? : Nat → Document → List Char → Option Document
  | 0, doc, text => if skipBlanks text = [] then some doc else none
  | steps + 1, doc, text =>
    match skipBlanks text with
    | [] => some doc
    | '#' :: rest => do readLines? steps doc (← endLine? (rest.dropWhile isPlain))
    | '[' :: rest => do
      let (doc, rest) ← doc.readHeader? rest
      readLines? steps doc rest
    | text =>
      match newline? text with
      | some rest => readLines? steps doc rest
      | none => do
        let (doc, rest) ← doc.readEntry? text
        readLines? steps doc rest

end Document

/-- A byte order mark at the head of a text is not part of it. -/
def dropByteOrderMark : List Char → List Char
  | '\uFEFF' :: rest => rest
  | text => text

/-- The entries of a document. -/
def parse? (text : List Char) : Option Entries := do
  let doc ← Document.readLines? (text.length + 1) {} (dropByteOrderMark text)
  return doc.entries

end MetricQuery.Toml
