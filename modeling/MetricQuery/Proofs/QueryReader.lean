import MetricQuery.Expr.Basic
import MetricQuery.Number.Decimal
import MetricQuery.Proofs.QuotedText

/-!
# A reader of query text

The tree of a query, read by precedence: `or` binds weakest, then `and` and `unless`, then the
comparisons, then `+` and `-`, then `*`, `/`, `%` and `atan2`, then `^`. Only `^` groups to the right. A
sign takes an operand that may hold `^` and postfix forms, but nothing weaker. Brackets, `offset` and `@`
belong to the primary before them, `on`, `ignoring`, `group_left` and `group_right` stand behind the
operator, `by` and `without` before the arguments of an aggregation, and parentheses leave no node.

A list of labels behind `group_left` or `group_right` may be missing, and the right operand may begin with a
parenthesis too. A `strict` reader takes every parenthesis there for labels; the other one takes it for the
operand when no list of labels stands in it.

The reader shares nothing with the writer of query text but the tree: words, symbols and strengths are
tables of its own. It takes a value from the head of a text and returns what follows. The parts below
`readExpr` take the reader of the expressions inside them as an argument, and `readExpr` ties the knot: what
is inside always stands in a shorter text, and that bounds the recursion.
-/

set_option autoImplicit false

namespace MetricQuery.Query

/-- Takes a value from the head of a text. -/
abbrev Reader (α : Type) := List Char → Option (α × List Char)

/-! ## Words -/

/-- White space between words. -/
def isBlank (c : Char) : Bool :=
  c = ' ' || c = '\t' || c = '\n' || c = '\r'

/-- The text without the white space before it. -/
def skip (text : List Char) : List Char :=
  text.dropWhile isBlank

/-- Characters of names. -/
def isNameChar (c : Char) : Bool :=
  c.isAlphanum || c = '_' || c = ':'

/-- Characters with which a name can begin. -/
def isNameStart (c : Char) : Bool :=
  c.isAlpha || c = '_' || c = ':'

/-- Characters of durations, times and numbers. -/
def isModifierChar (c : Char) : Bool :=
  c.isAlphanum || c = '_' || c = '.'

/-- The longest run of name characters at the head of a text. -/
def word (text : List Char) : String :=
  String.ofList (text.takeWhile isNameChar)

/-- The text behind the word at its head. -/
def afterWord (text : List Char) : List Char :=
  text.dropWhile isNameChar

/-- A name that does not begin with a digit. -/
def isIdentifier (name : String) : Bool :=
  match name.toList with
  | [] => false
  | c :: cs => isNameStart c && cs.all isNameChar

/-- The words for aggregations. -/
def aggregatorWords : List (String × Aggregator) :=
  [("sum", .sum), ("min", .min), ("max", .max), ("avg", .avg), ("stddev", .stddev), ("stdvar", .stdvar),
    ("count", .count), ("group", .group), ("count_values", .countValues), ("bottomk", .bottomk),
    ("topk", .topk), ("quantile", .quantile), ("limitk", .limitk), ("limit_ratio", .limitRatio)]

/-- The binary operators that are words. -/
def operatorWords : List (String × BinaryOp) :=
  [("and", .and), ("or", .or), ("unless", .excluding), ("atan2", .atan2)]

/-- The words for the labels that a matching is on. -/
def scopeWords : List (String × MatchScope) :=
  [("on", .onLabels), ("ignoring", .ignoringLabels)]

/-- The words for the side with many series. -/
def sideWords : List (String × GroupSide) :=
  [("group_left", .left), ("group_right", .right)]

/-- The numbers that are written as words, in any case. -/
def numberWord? (name : String) : Option Double :=
  if name.toList.map Char.toLower = ['i', 'n', 'f'] then some (.infinity false)
  else if name.toList.map Char.toLower = ['n', 'a', 'n'] then some .nan
  else none

/-- The words that are no names. -/
def keywords : List String :=
  operatorWords.map Prod.fst ++ aggregatorWords.map Prod.fst ++ scopeWords.map Prod.fst ++
    sideWords.map Prod.fst ++ ["by", "without", "offset"]

/-- An identifier that stands for itself. -/
def isName (name : String) : Bool :=
  isIdentifier name && !keywords.contains name && (numberWord? name).isNone

/-! ## Lists -/

/-- The given character, after blanks. -/
def expect (c : Char) (text : List Char) : Option (List Char) :=
  match skip text with
  | d :: rest => if d = c then some rest else none
  | [] => none

/-- One or more items with commas between them, up to the closing character. -/
def readItems {α : Type} (item : Reader α) (close : Char) (text : List Char) :
    Option (List α × List Char) := do
  let (a, rest) ← item (skip text)
  match skip rest with
  | [] => none
  | c :: rest =>
    if c = close then some ([a], rest)
    else if c = ',' then
      if rest.length < text.length then do
        let (as, rest) ← readItems item close rest
        some (a :: as, rest)
      else none
    else none
termination_by text.length

/-- Any number of items, up to the closing character. -/
def readList {α : Type} (item : Reader α) (close : Char) (text : List Char) :
    Option (List α × List Char) :=
  match skip text with
  | [] => none
  | c :: rest => if c = close then some ([], rest) else readItems item close (c :: rest)

/-- A label at the head of the text. -/
def readLabel (text : List Char) : Option (String × List Char) :=
  if isIdentifier (word (skip text)) then some (word (skip text), afterWord (skip text)) else none

/-- Labels in parentheses. -/
def readLabels (text : List Char) : Option (List String × List Char) := do
  readList readLabel ')' (← expect '(' text)

/-! ## Postfix forms -/

/-- A word of a modifier, or one of the two calls that can stand for a time. -/
def readModifier (text : List Char) : Option (String × List Char) :=
  let run := text.takeWhile isModifierChar
  let rest := text.dropWhile isModifierChar
  if run = [] then none
  else
    match rest with
    | '(' :: ')' :: after =>
      if run = ['s', 't', 'a', 'r', 't'] ∨ run = ['e', 'n', 'd'] then
        some (String.ofList (run ++ ['(', ')']), after)
      else some (String.ofList run, rest)
    | _ => some (String.ofList run, rest)

/-- What may stand behind an operand. -/
inductive Postfix where
  /-- `[5m]`. -/
  | range (range : String)
  /-- `[5m:1m]`, or `[5m:]`. -/
  | window (range : String) (resolution : Option String)
  | offset (duration : String)
  | instant (time : String)

/-- What stands between brackets, behind the opening one. -/
def readBracket (text : List Char) : Option (Postfix × List Char) := do
  let (range, rest) ← readModifier (skip text)
  match skip rest with
  | ']' :: rest => some (.range range, rest)
  | ':' :: rest =>
    match skip rest with
    | ']' :: rest => some (.window range none, rest)
    | rest => do
      let (resolution, rest) ← readModifier rest
      some (.window range (some resolution), ← expect ']' rest)
  | _ => none

/-- The postfix form at the head of a text, if there is one. -/
def readPostfix (text : List Char) : Option (Postfix × List Char) :=
  match skip text with
  | '[' :: rest => readBracket rest
  | '@' :: rest => do
    let (time, rest) ← readModifier (skip rest)
    some (.instant time, rest)
  | rest =>
    if word rest = "offset" then do
      let (duration, rest) ← readModifier (skip (afterWord rest))
      some (.offset duration, rest)
    else none

/-- The node with a postfix form behind it. Only selectors and subqueries have modifiers, each once. -/
def Postfix.attach : Postfix → Expr → Option Expr
  | range r, .selector s =>
    if s.range = none ∧ s.offset = none ∧ s.instant = none then
      some (.selector { s with range := some r })
    else none
  | window r resolution, e => some (.subquery e { range := some r, resolution := resolution })
  | offset d, .selector s =>
    if s.offset = none then some (.selector { s with offset := some d }) else none
  | offset d, .subquery body w =>
    if w.offset = none then some (.subquery body { w with offset := some d }) else none
  | instant t, .selector s =>
    if s.instant = none then some (.selector { s with instant := some t }) else none
  | instant t, .subquery body w =>
    if w.instant = none then some (.subquery body { w with instant := some t }) else none
  | _, _ => none

/-- All postfix forms behind a node. -/
def readPostfixes (e : Expr) (text : List Char) : Option (Expr × List Char) :=
  match readPostfix text with
  | none => some (e, text)
  | some (form, rest) =>
    if rest.length < text.length then do readPostfixes (← form.attach e) rest else none
termination_by text.length

/-! ## Primaries -/

/-- The operator of a matcher at the head of the text. -/
def readMatchOp : List Char → Option (MatchOp × List Char)
  | '=' :: '~' :: rest => some (.regexp, rest)
  | '=' :: rest => some (.equal, rest)
  | '!' :: '=' :: rest => some (.notEqual, rest)
  | '!' :: '~' :: rest => some (.notRegexp, rest)
  | _ => none

/-- `name="value"`. -/
def readMatcher (text : List Char) : Option (Matcher × List Char) := do
  let (name, rest) ← readLabel text
  let (op, rest) ← readMatchOp (skip rest)
  let (value, rest) ← Quoted.scanString (skip rest)
  some (⟨name, String.ofList value, op⟩, rest)

/-- A number at the head of the text. -/
def readNumber (text : List Char) : Option (Expr × List Char) := do
  let x ← Double.ofText? (text.takeWhile isModifierChar)
  some (.number x, text.dropWhile isModifierChar)

/-- The labels behind a keyword, none when the keyword is not there. -/
def readClause (keyword : String) (text : List Char) : Option (List String × List Char) :=
  if word (skip text) = keyword then readLabels (afterWord (skip text)) else some ([], text)

section Inner

variable (inner : Nat → Reader Expr)

/-- An aggregation behind its name: its labels, then its operand with the parameter before it. -/
def readAggregation (op : Aggregator) (text : List Char) : Option (Expr × List Char) := do
  let (drop, rest) ← readClause "without" text
  let (keep, rest) ← readClause "by" rest
  let (args, rest) ← readList (inner 1) ')' (← expect '(' rest)
  match args with
  | [e] => some (.aggregation op e none ⟨keep, drop⟩, rest)
  | [param, e] => some (.aggregation op e (some param) ⟨keep, drop⟩, rest)
  | _ => none

/-- What begins with a word: a number, an aggregation, a call or a selector. -/
def readNamed (name : String) (rest : List Char) : Option (Expr × List Char) :=
  match numberWord? name, aggregatorWords.lookup name with
  | some x, _ => some (.number x, rest)
  | none, some op => readAggregation inner op rest
  | none, none =>
    if keywords.contains name then none
    else
      match skip rest with
      | '(' :: rest => do
        let (args, rest) ← readList (inner 1) ')' rest
        some (.call name args, rest)
      | '{' :: rest => do
        let (matchers, rest) ← readList readMatcher '}' rest
        some (.selector { metric := name, matchers := matchers }, rest)
      | _ => some (.selector { metric := name }, rest)

/-- An operand without sign and postfixes at the head of the text. -/
def readPrimary (text : List Char) : Option (Expr × List Char) :=
  match skip text with
  | [] => none
  | '(' :: rest => do
    let (e, rest) ← inner 1 rest
    some (e, ← expect ')' rest)
  | '"' :: rest => do
    let (s, rest) ← Quoted.scanBody rest
    some (.text (String.ofList s), rest)
  | c :: rest =>
    if c.isDigit then readNumber (c :: rest)
    else if isNameStart c then readNamed inner (word (c :: rest)) (afterWord (c :: rest))
    else none

end Inner

/-! ## Operators -/

/-- How strongly an operator binds. -/
def strength : BinaryOp → Nat
  | .or => 1
  | .and | .excluding => 2
  | .equal | .notEqual | .less | .lessEqual | .greater | .greaterEqual => 3
  | .add | .sub => 4
  | .mul | .div | .mod | .atan2 => 5
  | .pow => 6

/-- How strongly an operator in the right operand has to bind. -/
def rightLevel (op : BinaryOp) : Nat :=
  if op = .pow then strength op else strength op + 1

/-- The operator at the head of a text, if there is one. -/
def readOperator (text : List Char) : Option (BinaryOp × List Char) :=
  match skip text with
  | '+' :: rest => some (.add, rest)
  | '-' :: rest => some (.sub, rest)
  | '*' :: rest => some (.mul, rest)
  | '/' :: rest => some (.div, rest)
  | '%' :: rest => some (.mod, rest)
  | '^' :: rest => some (.pow, rest)
  | '=' :: '=' :: rest => some (.equal, rest)
  | '!' :: '=' :: rest => some (.notEqual, rest)
  | '>' :: '=' :: rest => some (.greaterEqual, rest)
  | '<' :: '=' :: rest => some (.lessEqual, rest)
  | '>' :: rest => some (.greater, rest)
  | '<' :: rest => some (.less, rest)
  | rest => do some (← operatorWords.lookup (word rest), afterWord rest)

/-- `on` or `ignoring` with its labels. -/
def readScope (text : List Char) : Option ((Option MatchScope × List String) × List Char) :=
  match scopeWords.lookup (word (skip text)) with
  | some scope => do
    let (labels, rest) ← readLabels (afterWord (skip text))
    some ((some scope, labels), rest)
  | none => some ((none, []), text)

section Strict

variable (strict : Bool)

/-- `group_left` or `group_right`, with its labels when there are some. -/
def readSide (text : List Char) : Option ((Option GroupSide × List String) × List Char) :=
  match sideWords.lookup (word (skip text)) with
  | some side =>
    match skip (afterWord (skip text)) with
    | '(' :: rest =>
      match readList readLabel ')' rest with
      | some (labels, rest) => some ((some side, labels), rest)
      | none => if strict then none else some ((some side, []), afterWord (skip text))
    | _ => some ((some side, []), afterWord (skip text))
  | none => some ((none, []), text)

/-- What stands between an operator and its right operand. -/
def readMatching (text : List Char) : Option (Matching × List Char) := do
  let ((scope, labels), rest) ← readScope text
  let ((side, carried), rest) ← readSide strict rest
  some (⟨scope, labels, side, carried⟩, rest)

/-! ## Expressions -/

/-- A primary with its postfix forms, or a sign with its operand. -/
def readSigned (inner : Nat → Reader Expr) (text : List Char) : Option (Expr × List Char) :=
  match skip text with
  | '+' :: rest => do
    let (e, rest) ← inner (strength .pow) rest
    some (.unary .plus e, rest)
  | '-' :: rest => do
    let (e, rest) ← inner (strength .pow) rest
    some (.unary .minus e, rest)
  | rest => do
    let (e, rest) ← readPrimary inner rest
    readPostfixes e rest

/-- Takes operators that bind at least as strongly as `level`, with their right operands, into an
expression that was read. -/
def climb (inner : Nat → Reader Expr) (level : Nat) (left : Expr) (text : List Char) :
    Option (Expr × List Char) :=
  match readOperator text with
  | none => some (left, text)
  | some (op, rest) =>
    if strength op < level then some (left, text)
    else do
      let (m, rest) ← readMatching strict rest
      let (right, rest) ← inner (rightLevel op) rest
      if rest.length < text.length then climb inner level (.binary op left right m) rest else none
termination_by text.length

/-- An expression whose operators bind at least as strongly as `level`. -/
def readExpr (level : Nat) (text : List Char) : Option (Expr × List Char) := do
  let inner : Nat → Reader Expr := fun level' text' =>
    if text'.length < text.length then readExpr level' text' else none
  let (left, rest) ← readSigned inner text
  climb strict inner level left rest
termination_by text.length

/-- The tree of a whole text. -/
def read (text : List Char) : Option Expr := do
  let (e, rest) ← readExpr strict 1 text
  if skip rest = [] then some e else none

end Strict

end MetricQuery.Query
