import MetricQuery.Json.Number

/-!
# Reading JSON

The reader takes a value from the head of a text and returns what follows it. It is strict JSON
with a bound on nesting, and tells two faults apart: the text ends too early, or it goes wrong
before its end.

The parts of a value are functions of their own (`nextItem`, `nextMember`, `readColon`), so that a
reader that looks at members while they come in can share them.
-/

set_option autoImplicit false

namespace MetricQuery.Json

/-- White space of JSON. -/
def isBlank (c : Char) : Bool :=
  c = ' ' || c = '\t' || c = '\n' || c = '\r'

/-- The text without the white space before it. -/
def skipBlanks (text : List Char) : List Char :=
  text.dropWhile isBlank

/-- Reads the given word. -/
def expect : List Char → List Char → Except Fault (List Char)
  | [], text => .ok text
  | _ :: _, [] => .error .truncated
  | w :: ws, c :: text => if c = w then expect ws text else .error .malformed

/-- The value of a hexadecimal digit. -/
def hexValue? (c : Char) : Option Nat :=
  if '0' ≤ c ∧ c ≤ '9' then some (c.toNat - '0'.toNat)
  else if 'a' ≤ c ∧ c ≤ 'f' then some (c.toNat - 'a'.toNat + 10)
  else if 'A' ≤ c ∧ c ≤ 'F' then some (c.toNat - 'A'.toNat + 10)
  else none

/-- Four hexadecimal digits. Fewer than four bytes before the end of the text are too few. -/
def readHex (text : List Char) : Except Fault (Nat × List Char) :=
  match text with
  | a :: b :: c :: d :: rest =>
    match hexValue? a, hexValue? b, hexValue? c, hexValue? d with
    | some a, some b, some c, some d => .ok (4096 * a + 256 * b + 16 * c + d, rest)
    | _, _, _, _ => .error .malformed
  | few =>
    .error (if few.foldl (fun n c => n + c.utf8Size) 0 < 4 then .truncated else .malformed)

/-- Whether a code is the first half of a pair. -/
def isHighSurrogate (n : Nat) : Bool := decide (0xd800 ≤ n ∧ n ≤ 0xdbff)

/-- Whether a code is the second half of a pair. -/
def isLowSurrogate (n : Nat) : Bool := decide (0xdc00 ≤ n ∧ n ≤ 0xdfff)

/-- The second half of a surrogate pair. -/
def readLowSurrogate (high : Nat) : List Char → Except Fault (Char × List Char)
  | '\\' :: 'u' :: text => do
    let (low, rest) ← readHex text
    if isLowSurrogate low then
      return (Char.ofNat (0x10000 + 1024 * (high - 0xd800) + (low - 0xdc00)), rest)
    else throw .malformed
  | [] => .error .truncated
  | ['\\'] => .error .truncated
  | _ => .error .malformed

/-- The character that an escape stands for, behind its backslash. -/
def readEscape : List Char → Except Fault (Char × List Char)
  | [] => .error .truncated
  | '"' :: rest => .ok ('"', rest)
  | '\\' :: rest => .ok ('\\', rest)
  | '/' :: rest => .ok ('/', rest)
  | 'b' :: rest => .ok ('\x08', rest)
  | 'f' :: rest => .ok ('\x0c', rest)
  | 'n' :: rest => .ok ('\n', rest)
  | 'r' :: rest => .ok ('\r', rest)
  | 't' :: rest => .ok ('\t', rest)
  | 'u' :: rest => do
    let (n, rest) ← readHex rest
    if isLowSurrogate n then throw .malformed
    else if isHighSurrogate n then readLowSurrogate n rest
    else return (Char.ofNat n, rest)
  | _ :: _ => .error .malformed

/-- The characters of a string up to its closing quote. Each step takes a character of the text, so
the text's length bounds the steps. -/
def readChars : Nat → List Char → Except Fault (List Char × List Char)
  | _, [] => .error .truncated
  | 0, _ :: _ => .error .truncated
  | steps + 1, c :: text =>
    if c = '"' then .ok ([], text)
    else if c = '\\' then do
      let (e, rest) ← readEscape text
      let (s, rest) ← readChars steps rest
      return (e :: s, rest)
    else if c.toNat < 0x20 then .error .malformed
    else do
      let (s, rest) ← readChars steps text
      return (c :: s, rest)

/-- A string behind its opening quote. -/
def readString (text : List Char) : Except Fault (String × List Char) := do
  let (s, rest) ← readChars text.length text
  return (String.ofList s, rest)

/-- What comes next inside a bracket: its end, or one more part. -/
inductive Next (α : Type) where
  | close (rest : List Char)
  | part (value : α) (rest : List Char)

/-- The end of an array, or the place of its next item. -/
def nextItem (first : Bool) (text : List Char) : Except Fault (Next Unit) :=
  match skipBlanks text with
  | [] => .error .truncated
  | ']' :: rest => .ok (.close rest)
  | c :: rest =>
    if first then .ok (.part () (c :: rest))
    else if c = ',' then
      match skipBlanks rest with
      | [] => .error .truncated
      | ']' :: _ => .error .malformed
      | rest => .ok (.part () rest)
    else .error .malformed

/-- The end of an object, or the key of its next member. -/
def nextMember (first : Bool) (text : List Char) : Except Fault (Next String) :=
  let key := fun (text : List Char) => do
    let (name, rest) ← readString text
    return Next.part name rest
  match skipBlanks text with
  | [] => .error .truncated
  | '}' :: rest => .ok (.close rest)
  | c :: rest =>
    if first then if c = '"' then key rest else .error .malformed
    else if c = ',' then
      match skipBlanks rest with
      | [] => .error .truncated
      | '"' :: rest => key rest
      | _ => .error .malformed
    else .error .malformed

/-- The colon behind a key. -/
def readColon (text : List Char) : Except Fault (List Char) :=
  match skipBlanks text with
  | [] => .error .truncated
  | ':' :: rest => .ok rest
  | _ => .error .malformed

/-- The items of an array up to its closing bracket. -/
def readItems (value : List Char → Except Fault (Json × List Char)) :
    Nat → Bool → List Char → Except Fault (List Json × List Char)
  | 0, _, _ => .error .truncated
  | steps + 1, first, text => do
    match ← nextItem first text with
    | .close rest => return ([], rest)
    | .part () rest =>
      let (j, rest) ← value rest
      let (js, rest) ← readItems value steps false rest
      return (j :: js, rest)

/-- The members of an object up to its closing bracket. -/
def readMembers (value : List Char → Except Fault (Json × List Char)) :
    Nat → Bool → List Char → Except Fault (List (String × Json) × List Char)
  | 0, _, _ => .error .truncated
  | steps + 1, first, text => do
    match ← nextMember first text with
    | .close rest => return ([], rest)
    | .part name rest =>
      let (j, rest) ← value (← readColon rest)
      let (js, rest) ← readMembers value steps false rest
      return ((name, j) :: js, rest)

/-- One value; the arguments read what stands behind an opening bracket. -/
def readValueWith (array object : List Char → Except Fault (Json × List Char))
    (text : List Char) : Except Fault (Json × List Char) :=
  match skipBlanks text with
  | [] => .error .truncated
  | 'n' :: rest => do return (.null, ← expect ['u', 'l', 'l'] rest)
  | 't' :: rest => do return (.bool true, ← expect ['r', 'u', 'e'] rest)
  | 'f' :: rest => do return (.bool false, ← expect ['a', 'l', 's', 'e'] rest)
  | '"' :: rest => do
    let (s, rest) ← readString rest
    return (.string s, rest)
  | '-' :: rest => readNumber true rest
  | '[' :: rest => array rest
  | '{' :: rest => object rest
  | c :: rest => if c.isDigit then readNumber false (c :: rest) else .error .malformed

/-- One value with at most `depth` brackets around any of its parts. Every part of a bracket takes
at least one character, so the text's length bounds their number. -/
def readValue : Nat → List Char → Except Fault (Json × List Char)
  | 0 => readValueWith (fun _ => .error .malformed) (fun _ => .error .malformed)
  | depth + 1 =>
    readValueWith
      (fun text => do
        let (js, rest) ← readItems (readValue depth) (text.length + 1) true text
        return (.array js, rest))
      (fun text => do
        let (js, rest) ← readMembers (readValue depth) (text.length + 1) true text
        return (.object js, rest))

/-- How many brackets may be open at once. -/
def nestingLimit : Nat := 127

/-- Nothing but white space may follow a value. -/
def finish (rest : List Char) : Except Fault Unit :=
  match skipBlanks rest with
  | [] => .ok ()
  | _ :: _ => .error .malformed

end MetricQuery.Json
