import MetricQuery.Expr.Decode
import MetricQuery.Expr.Validate
import MetricQuery.Json.Reader

/-!
# Trees from text

Reading a stored tree. At the top of a text the kind is looked at while the text is still being
read: a kind that is unknown or given twice is a fault at once, before what follows. The rest of the
text is read to its end before any field is decoded, then the fields are decoded, then nothing but
white space may follow, and a tree that is loaded is validated last.
-/

set_option autoImplicit false

namespace MetricQuery

/-- Why a text is no tree. -/
inductive ReadFault where
  /-- It is no JSON. -/
  | json (fault : Json.Fault)
  /-- It is JSON of another shape. -/
  | data (fault : DataFault)

namespace ReadFault

/-- A step of the JSON reader. -/
def ofJson {α : Type} : Except Json.Fault α → Except ReadFault α
  | .ok a => .ok a
  | .error f => .error (.json f)

/-- A step of decoding. -/
def ofData {α : Type} : Decoded α → Except ReadFault α
  | .ok a => .ok a
  | .error f => .error (.data f)

end ReadFault

open ReadFault (ofJson ofData)

namespace Load

/-- What stands at the head of a text where something else is wanted. Of a bracket only the opening
is looked at. -/
def peek (text : List Char) : Except Json.Fault Found :=
  match Json.skipBlanks text with
  | '[' :: _ => .ok .sequence
  | '{' :: _ => .ok .map
  | text => do
    let (j, _) ← Json.readValue 0 text
    return .of j

/-- A name from a text that starts behind its opening quote. -/
def quotedName (α : Type) [Vocabulary α] (text : List Char) : Except ReadFault (α × List Char) := do
  let (s, rest) ← ofJson (Json.readString text)
  return (← ofData (Decode.named α s), rest)

/-- A name from the head of a text. -/
def name (α : Type) [Vocabulary α] (text : List Char) : Except ReadFault (α × List Char) :=
  match Json.skipBlanks text with
  | '"' :: text => quotedName α text
  | text => do
    let found ← ofJson (peek text)
    throw (.data (.wrongType found .tag))

/-- The depth that is left inside the bracket at the top. -/
def innerDepth : Nat := Json.nestingLimit - 1

/-- The kind and the other members of the object at the top. -/
def members : Nat → Bool → Option Kind → List Char →
    Except ReadFault (Kind × List (String × Json) × List Char)
  | 0, _, _, _ => .error (.json .truncated)
  | steps + 1, first, kind, text => do
    match ← ofJson (Json.nextMember first text) with
    | .close rest =>
      match kind with
      | some kind => return (kind, [], rest)
      | none => throw (.data (.missingField "type"))
    | .part key rest =>
      if key = "type" then
        match kind with
        | some _ => throw (.data (.repeatedField key))
        | none =>
          let (kind, rest) ← name Kind (← ofJson (Json.readColon rest))
          members steps false (some kind) rest
      else
        let (j, rest) ← ofJson (Json.readValue innerDepth (← ofJson (Json.readColon rest)))
        let (kind, others, rest) ← members steps false kind rest
        return (kind, (key, j) :: others, rest)

/-- The kind and the fields of the node at the top. -/
def tagged (text : List Char) : Except ReadFault (Kind × Decode.Content × List Char) :=
  match Json.skipBlanks text with
  | '{' :: text => do
    let (kind, others, rest) ← members (text.length + 1) true none text
    return (kind, .object others, rest)
  | '[' :: text => do
    match ← ofJson (Json.nextItem true text) with
    | .close _ => throw (.data (.missingField "type"))
    | .part () rest =>
      let (kind, rest) ← name Kind rest
      let (js, rest) ← ofJson
        (Json.readItems (Json.readValue innerDepth) (rest.length + 1) false rest)
      return (kind, .array js, rest)
  | text => do
    let found ← ofJson (peek text)
    throw (.data (.wrongType found .expression))

/-- How high the values of a node's fields are. -/
def contentHeight : Decode.Content → Nat
  | .object ms => Json.heightMembers ms
  | .array js => Json.heightItems js

/-- The name of an operator that is the key of an object. A key is always a string. -/
def keyName (α : Type) [Vocabulary α] (text : List Char) : Except ReadFault (α × List Char) :=
  match Json.skipBlanks text with
  | [] => .error (.json .truncated)
  | '"' :: text => quotedName α text
  | _ => .error (.json .malformed)

/-- An operator that is a text of its own. Unlike inside a tree, the object form has `null` behind
its key. -/
def operator (α : Type) [Vocabulary α] (text : List Char) : Except ReadFault α :=
  match Json.skipBlanks text with
  | [] => .error (.json .truncated)
  | '"' :: text => do
    let (a, rest) ← quotedName α text
    ofJson (Json.finish rest)
    return a
  | '{' :: text => do
    let (a, rest) ← keyName α text
    let rest ← ofJson (Json.readColon rest)
    match Json.skipBlanks rest with
    | 'n' :: rest =>
      let rest ← ofJson (Json.expect ['u', 'l', 'l'] rest)
      match Json.skipBlanks rest with
      | [] => throw (.json .truncated)
      | '}' :: rest =>
        ofJson (Json.finish rest)
        return a
      | _ => throw (.json .malformed)
    | rest =>
      let found ← ofJson (peek rest)
      throw (.data (.wrongType found .nothing))
  | _ => .error (.json .malformed)

end Load

/-- Why a text is no valid tree. -/
inductive LoadFault where
  | read (fault : ReadFault)
  | invalid (violation : Violation)

namespace Expr

/-- The tree of a text, valid or not. -/
def read (text : List Char) : Except ReadFault Expr := do
  let (kind, content, rest) ← Load.tagged text
  let e ← ofData (Decode.node (decode (Load.contentHeight content)) kind content)
  ofJson (Json.finish rest)
  return e

/-- The valid tree of a text. -/
def load (text : List Char) : Except LoadFault Expr :=
  match read text with
  | .error f => .error (.read f)
  | .ok e =>
    match e.validate with
    | .error v => .error (.invalid v)
    | .ok () => .ok e

end Expr

end MetricQuery
