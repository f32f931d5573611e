import MetricQuery.Expr.DataFault

/-!
# Trees from JSON values

The tree that a JSON value stands for. A node is an object whose member `type` names its kind, or an
array that starts with the kind. The rest holds the fields of the node:

* as an object, by name and in any order. Unknown members are passed over, whatever they hold. A
  field that occurs twice is a fault at the second place, before its value is looked at. Fields that
  are required and absent are reported last, in the order of the node's own fields.
* as an array, by position. Fields at the end that have a default may be left out.

Below the top of a text the kind may also be given as its position among the kinds.

The functions that decode the fields of a node take the decoder of its children as an argument,
`child`; `decode` ties the knot along the height of the value.
-/

set_option autoImplicit false

namespace MetricQuery

/-- The result of decoding. -/
abbrev Decoded (α : Type) := Except DataFault α

namespace Decode

/-! ## Values -/

/-- Decodes a text. -/
def text : Json → Decoded String
  | .string s => .ok s
  | j => .error (.wrongType (.of j) .text)

/-- A whole number is rounded to the nearest binary64 number. -/
def number : Json → Decoded Double
  | .float x => .ok x
  | .integer n => .ok (Double.ofRatio (decide (n < 0)) n.natAbs 1)
  | j => .error (.wrongType (.of j) .number)

/-- All items, from first to last. -/
def items {α : Type} (item : Json → Decoded α) : List Json → Decoded (List α)
  | [] => .ok []
  | j :: js => do
    let a ← item j
    let as ← items item js
    return a :: as

/-- Decodes an array, item by item. -/
def list {α : Type} (item : Json → Decoded α) : Json → Decoded (List α)
  | .array js => items item js
  | j => .error (.wrongType (.of j) .list)

/-- Decodes an array of labels. -/
def labels : Json → Decoded (List String) :=
  list text

/-- `null` stands for a value that is not given. -/
def option {α : Type} (value : Json → Decoded α) : Json → Decoded (Option α)
  | .null => .ok none
  | j => do return some (← value j)

/-- Decodes a name that is one of a vocabulary. -/
def named (α : Type) [Vocabulary α] (name : String) : Decoded α :=
  match Vocabulary.ofName? name with
  | some a => .ok a
  | none => .error (.unknownName name (Vocabulary.names α))

/-- An operator is given by its name, or as an object with the name as its only key and nothing
behind it. -/
def operator {α : Type} [Vocabulary α] : Json → Decoded α
  | .string s => named α s
  | .object [(key, value)] => do
    let a ← named α key
    match value with
    | .null => return a
    | .object [] => return a
    | j => throw (.wrongType (.of j) .nothing)
  | .object _ => .error .notOneKey
  | j => .error (.wrongType (.of j) .operator)

/-! ## Fields by name -/

/-- Fills a field that is still empty. -/
def fill {α : Type} (field : Option α) (name : String) (value : Decoded α) : Decoded (Option α) :=
  match field with
  | some _ => .error (.repeatedField name)
  | none => do return some (← value)

/-- The value of a field that is required. -/
def need {α : Type} (field : Option α) (name : String) : Decoded α :=
  match field with
  | some a => .ok a
  | none => .error (.missingField name)

/-- The fields after all members, from first to last. -/
def gather {σ : Type} (put : σ → String → Json → Decoded σ) : σ → List (String × Json) → Decoded σ
  | fields, [] => .ok fields
  | fields, (key, value) :: members => do
    gather put (← put fields key value) members

/-! ## Fields by position -/

/-- The next field of an array of `present` items, one that must be there. -/
def take {α : Type} (record : Record) (present : Nat) (value : Json → Decoded α) :
    List Json → Decoded (α × List Json)
  | [] => .error (.tooShort present record)
  | j :: js => do return (← value j, js)

/-- The next field of an array, one that may be left out. -/
def takeOr {α : Type} (default : α) (value : Json → Decoded α) : List Json → Decoded (α × List Json)
  | [] => .ok (default, [])
  | j :: js => do return (← value j, js)

/-- All items of an array must be fields. -/
def done (record : Record) (present : Nat) : List Json → Decoded Unit
  | [] => .ok ()
  | _ :: _ => .error (.tooLong present record)

/-! ## Matchers -/

/-- The fields of a matcher that have come in. -/
structure MatcherFields where
  name : Option String := none
  value : Option String := none
  op : Option MatchOp := none

/-- Puts a member among the fields of a matcher. -/
def MatcherFields.put (f : MatcherFields) (key : String) (j : Json) : Decoded MatcherFields :=
  match key with
  | "name" => do return { f with name := ← fill f.name key (text j) }
  | "value" => do return { f with value := ← fill f.value key (text j) }
  | "operator" => do return { f with op := ← fill f.op key (operator j) }
  | _ => .ok f

/-- Decodes a matcher, with its fields by name or by position. -/
def matcher : Json → Decoded Matcher
  | .object members => do
    let f ← gather MatcherFields.put {} members
    return ⟨← need f.name "name", ← need f.value "value", ← need f.op "operator"⟩
  | .array js => do
    let (name, rest) ← take .matcher js.length text js
    let (value, rest) ← take .matcher js.length text rest
    let (op, rest) ← take .matcher js.length operator rest
    done .matcher js.length rest
    return ⟨name, value, op⟩
  | j => .error (.wrongType (.of j) .matcher)

/-! ## Nodes -/

/-- The fields of a node, without its kind. -/
inductive Content where
  | object (members : List (String × Json))
  | array (items : List Json)

/-- The only field of a literal. -/
def putValue {α : Type} (value : Json → Decoded α) (field : Option α) (key : String) (j : Json) :
    Decoded (Option α) :=
  match key with
  | "value" => fill field key (value j)
  | _ => .ok field

/-- Decodes the content of a literal, which has one field. -/
def literal {α : Type} (kind : Kind) (value : Json → Decoded α) : Content → Decoded α
  | .object members => do need (← gather (putValue value) none members) "value"
  | .array js => do
    let (a, rest) ← take (.node kind) js.length value js
    done (.node kind) js.length rest
    return a

/-- The fields of a selector that have come in. -/
structure SelectorFields where
  metric : Option String := none
  labels : Option (List Matcher) := none
  offset : Option (Option String) := none
  instant : Option (Option String) := none
  range : Option (Option String) := none

/-- Puts a member among the fields of a selector. -/
def SelectorFields.put (f : SelectorFields) (key : String) (j : Json) : Decoded SelectorFields :=
  match key with
  | "metric" => do return { f with metric := ← fill f.metric key (text j) }
  | "labels" => do return { f with labels := ← fill f.labels key (list matcher j) }
  | "offset" => do return { f with offset := ← fill f.offset key (option text j) }
  | "at" => do return { f with instant := ← fill f.instant key (option text j) }
  | "range" => do return { f with range := ← fill f.range key (option text j) }
  | _ => .ok f

/-- Decodes the content of a selector. -/
def selector : Content → Decoded Selector
  | .object members => do
    let f ← gather SelectorFields.put {} members
    return ⟨← need f.metric "metric", f.labels.getD [], f.offset.join, f.instant.join, f.range.join⟩
  | .array js => do
    let (metric, rest) ← take (.node .selector) js.length text js
    let (labels, rest) ← takeOr [] (list matcher) rest
    let (offset, rest) ← takeOr none (option text) rest
    let (instant, rest) ← takeOr none (option text) rest
    let (range, rest) ← takeOr none (option text) rest
    done (.node .selector) js.length rest
    return ⟨metric, labels, offset, instant, range⟩

section Children

variable (child : Json → Decoded Expr)

/-- The fields of a subquery that have come in. -/
structure SubqueryFields where
  body : Option Expr := none
  offset : Option (Option String) := none
  instant : Option (Option String) := none
  range : Option (Option String) := none
  resolution : Option (Option String) := none

/-- Puts a member among the fields of a subquery. -/
def SubqueryFields.put (f : SubqueryFields) (key : String) (j : Json) : Decoded SubqueryFields :=
  match key with
  | "expr" => do return { f with body := ← fill f.body key (child j) }
  | "offset" => do return { f with offset := ← fill f.offset key (option text j) }
  | "at" => do return { f with instant := ← fill f.instant key (option text j) }
  | "range" => do return { f with range := ← fill f.range key (option text j) }
  | "resolution" => do return { f with resolution := ← fill f.resolution key (option text j) }
  | _ => .ok f

/-- Decodes the content of a subquery. -/
def subquery : Content → Decoded Expr
  | .object members => do
    let f ← gather (SubqueryFields.put child) {} members
    return .subquery (← need f.body "expr")
      ⟨f.offset.join, f.instant.join, f.range.join, f.resolution.join⟩
  | .array js => do
    let (body, rest) ← take (.node .subquery) js.length child js
    let (offset, rest) ← takeOr none (option text) rest
    let (instant, rest) ← takeOr none (option text) rest
    let (range, rest) ← takeOr none (option text) rest
    let (resolution, rest) ← takeOr none (option text) rest
    done (.node .subquery) js.length rest
    return .subquery body ⟨offset, instant, range, resolution⟩

/-- The fields of a signed expression that have come in. -/
structure UnaryFields where
  op : Option Sign := none
  operand : Option Expr := none

/-- Puts a member among the fields of a signed expression. -/
def UnaryFields.put (f : UnaryFields) (key : String) (j : Json) : Decoded UnaryFields :=
  match key with
  | "op" => do return { f with op := ← fill f.op key (operator j) }
  | "expr" => do return { f with operand := ← fill f.operand key (child j) }
  | _ => .ok f

/-- Decodes the content of a signed expression. -/
def unary : Content → Decoded Expr
  | .object members => do
    let f ← gather (UnaryFields.put child) {} members
    return .unary (← need f.op "op") (← need f.operand "expr")
  | .array js => do
    let (op, rest) ← take (.node .unary) js.length operator js
    let (operand, rest) ← take (.node .unary) js.length child rest
    done (.node .unary) js.length rest
    return .unary op operand

/-- The fields of an aggregation that have come in. -/
structure AggregationFields where
  op : Option Aggregator := none
  operand : Option Expr := none
  param : Option (Option Expr) := none
  keep : Option (List String) := none
  drop : Option (List String) := none

/-- Puts a member among the fields of an aggregation. -/
def AggregationFields.put (f : AggregationFields) (key : String) (j : Json) :
    Decoded AggregationFields :=
  match key with
  | "op" => do return { f with op := ← fill f.op key (operator j) }
  | "expr" => do return { f with operand := ← fill f.operand key (child j) }
  | "param" => do return { f with param := ← fill f.param key (option child j) }
  | "by" => do return { f with keep := ← fill f.keep key (labels j) }
  | "without" => do return { f with drop := ← fill f.drop key (labels j) }
  | _ => .ok f

/-- Decodes the content of an aggregation. -/
def aggregation : Content → Decoded Expr
  | .object members => do
    let f ← gather (AggregationFields.put child) {} members
    return .aggregation (← need f.op "op") (← need f.operand "expr") f.param.join
      ⟨f.keep.getD [], f.drop.getD []⟩
  | .array js => do
    let (op, rest) ← take (.node .aggregation) js.length operator js
    let (operand, rest) ← take (.node .aggregation) js.length child rest
    let (param, rest) ← takeOr none (option child) rest
    let (keep, rest) ← takeOr [] labels rest
    let (drop, rest) ← takeOr [] labels rest
    done (.node .aggregation) js.length rest
    return .aggregation op operand param ⟨keep, drop⟩

/-- The fields of a binary operation that have come in. -/
structure BinaryFields where
  op : Option BinaryOp := none
  left : Option Expr := none
  right : Option Expr := none
  scope : Option (Option MatchScope) := none
  labels : Option (List String) := none
  side : Option (Option GroupSide) := none
  carried : Option (List String) := none

/-- Puts a member among the fields of a binary operation. -/
def BinaryFields.put (f : BinaryFields) (key : String) (j : Json) : Decoded BinaryFields :=
  match key with
  | "op" => do return { f with op := ← fill f.op key (operator j) }
  | "left" => do return { f with left := ← fill f.left key (child j) }
  | "right" => do return { f with right := ← fill f.right key (child j) }
  | "matchType" => do return { f with scope := ← fill f.scope key (option operator j) }
  | "matchLabels" => do return { f with labels := ← fill f.labels key (Decode.labels j) }
  | "groupModifier" => do return { f with side := ← fill f.side key (option operator j) }
  | "groupLabels" => do return { f with carried := ← fill f.carried key (Decode.labels j) }
  | _ => .ok f

/-- Decodes the content of a binary operation. -/
def binary : Content → Decoded Expr
  | .object members => do
    let f ← gather (BinaryFields.put child) {} members
    return .binary (← need f.op "op") (← need f.left "left") (← need f.right "right")
      ⟨f.scope.join, f.labels.getD [], f.side.join, f.carried.getD []⟩
  | .array js => do
    let (op, rest) ← take (.node .binary) js.length operator js
    let (left, rest) ← take (.node .binary) js.length child rest
    let (right, rest) ← take (.node .binary) js.length child rest
    let (scope, rest) ← takeOr none (option operator) rest
    let (matched, rest) ← takeOr [] labels rest
    let (side, rest) ← takeOr none (option operator) rest
    let (carried, rest) ← takeOr [] labels rest
    done (.node .binary) js.length rest
    return .binary op left right ⟨scope, matched, side, carried⟩

/-- The fields of a call that have come in. -/
structure CallFields where
  function : Option String := none
  args : Option (List Expr) := none

/-- Puts a member among the fields of a call. -/
def CallFields.put (f : CallFields) (key : String) (j : Json) : Decoded CallFields :=
  match key with
  | "function" => do return { f with function := ← fill f.function key (text j) }
  | "args" => do return { f with args := ← fill f.args key (list child j) }
  | _ => .ok f

/-- Decodes the content of a call. -/
def call : Content → Decoded Expr
  | .object members => do
    let f ← gather (CallFields.put child) {} members
    return .call (← need f.function "function") (f.args.getD [])
  | .array js => do
    let (function, rest) ← take (.node .call) js.length text js
    let (args, rest) ← takeOr [] (list child) rest
    done (.node .call) js.length rest
    return .call function args

/-- A node of a known kind. -/
def node (kind : Kind) (content : Content) : Decoded Expr :=
  match kind with
  | .number => do return .number (← literal .number number content)
  | .text => do return .text (← literal .text text content)
  | .selector => do return .selector (← selector content)
  | .subquery => subquery child content
  | .unary => unary child content
  | .aggregation => aggregation child content
  | .binary => binary child content
  | .call => call child content

end Children

/-! ## Kinds -/

/-- The kind of a node below the top, by its name or by its position among the kinds. -/
def tag : Json → Decoded Kind
  | .string s => named Kind s
  | .integer n =>
    if n < 0 then .error (.wrongType (.integer n) .tag)
    else
      match (Vocabulary.all : List Kind)[n.toNat]? with
      | some kind => .ok kind
      | none => .error (.wrongIndex n)
  | j => .error (.wrongType (.of j) .tag)

/-- Takes the kind out of the members of an object. -/
def split : Option Kind → List (String × Json) → Decoded (Kind × List (String × Json))
  | none, [] => .error (.missingField "type")
  | some kind, [] => .ok (kind, [])
  | kind, (key, value) :: members =>
    if key = "type" then
      match kind with
      | some _ => .error (.repeatedField key)
      | none => do split (some (← tag value)) members
    else do
      let (kind, others) ← split kind members
      return (kind, (key, value) :: others)

/-- The kind of a node and its fields. -/
def tagged : Json → Decoded (Kind × Content)
  | .object members => do
    let (kind, others) ← split none members
    return (kind, .object others)
  | .array [] => .error (.missingField "type")
  | .array (j :: js) => do return (← tag j, .array js)
  | j => .error (.wrongType (.of j) .expression)

end Decode

namespace Expr

/-- The tree of a JSON value that is at most `height` brackets high. -/
def decode : Nat → Json → Decoded Expr
  | 0, j => .error (.wrongType (.of j) .expression)
  | height + 1, j => do
    let (kind, content) ← Decode.tagged j
    Decode.node (decode height) kind content

/-- The tree of a JSON value. -/
def ofValue (j : Json) : Decoded Expr :=
  decode j.height j

end Expr

end MetricQuery
