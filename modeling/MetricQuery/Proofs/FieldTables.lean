import MetricQuery.Expr.Decode
import Mathlib.Tactic.MkIffOfInductiveProp

/-!
# Tables of fields

Nine kinds of objects are decoded in the same way: every member whose key names a field fills this field, once;
other members are passed over; and at the end the fields are put together. Arrays give the same fields by
position. Here the fields of an object are a table. A `Slot` is one field, with the place where its value is kept
while members come in and the `Shape` of what it holds, and a `Schema` is the table of one kind of object.

What holds of all objects is proved for schemas, from laws that each table is checked for once: different slots
keep out of each other's way, and `null` in an optional field leaves no trace.
-/

set_option autoImplicit false

namespace MetricQuery.Decode

/-! ## Shapes -/

/-- What a field holds. -/
inductive Shape : Type → Type 1 where
  | text : Shape String
  | number : Shape Double
  | operator (α : Type) [Vocabulary α] : Shape α
  | labels : Shape (List String)
  | matchers : Shape (List Matcher)
  | child : Shape Expr
  | children : Shape (List Expr)
  | optional {α : Type} (shape : Shape α) : Shape (Option α)

namespace Shape

/-- The value of a field, given the decoder of expressions. -/
def decode (child : Json → Decoded Expr) {α : Type} : Shape α → Json → Decoded α
  | text => Decode.text
  | number => Decode.number
  | operator _ => Decode.operator
  | labels => Decode.labels
  | matchers => list matcher
  | Shape.child => child
  | children => list child
  | optional shape => option (shape.decode child)

/-- What `null` stands for, in a field where it is allowed. -/
def blank {α : Type} : Shape α → Option α
  | optional _ => some none
  | _ => none

/-- Where nothing need be given, null gives what stands for nothing. -/
theorem decode_null {child : Json → Decoded Expr} {α : Type} {shape : Shape α} {a : α}
    (h : shape.blank = some a) : shape.decode child .null = .ok a := by
  cases shape with
  | optional shape =>
    cases h
    rfl
  | _ => cases h

end Shape

/-! ## Slots -/

/-- A field among the fields that come in. -/
structure Slot (σ : Type) where
  name : String
  Value : Type
  shape : Shape Value
  /-- Whether an object without it is refused. -/
  required : Bool
  get : σ → Option Value
  set : σ → Option Value → σ
  get_set : ∀ f v, get (set f v) = v

namespace Slot

variable {σ : Type}

/-- Two slots that do not meet. -/
@[mk_iff]
structure Apart (s t : Slot σ) : Prop where
  name_ne : s.name ≠ t.name
  get_left : ∀ f v, s.get (t.set f v) = s.get f
  get_right : ∀ f v, t.get (s.set f v) = t.get f

/-- Slots that are apart are so in both directions. -/
theorem Apart.symm {s t : Slot σ} (h : s.Apart t) : t.Apart s :=
  ⟨h.name_ne.symm, h.get_right, h.get_left⟩

/-- Fills the slot with the value of a member. -/
def put (s : Slot σ) (child : Json → Decoded Expr) (f : σ) (j : Json) : Decoded σ := do
  return s.set f (← fill (s.get f) s.name (s.shape.decode child j))

end Slot

/-- A member goes into the slot that its key names, and nowhere when there is none. -/
def putIn {σ : Type} (child : Json → Decoded Expr) : List (Slot σ) → σ → String → Json → Decoded σ
  | [], f, _, _ => .ok f
  | s :: slots, f, key, j => if key = s.name then s.put child f j else putIn child slots f key j

/-- The fields of an array of `present` items, slot by slot. -/
def takeIn {σ : Type} (child : Json → Decoded Expr) (record : Record) (present : Nat) :
    List (Slot σ) → σ → List Json → Decoded σ
  | [], f, js => do
    done record present js
    return f
  | s :: slots, f, [] =>
    if s.required then .error (.tooShort present record) else takeIn child record present slots f []
  | s :: slots, f, j :: js => do
    let a ← s.shape.decode child j
    takeIn child record present slots (s.set f (some a)) js

/-! ## Schemas -/

/-- The fields of one kind of object, and what they make together. -/
structure Schema (α : Type) where
  record : Record
  Fields : Type
  empty : Fields
  slots : List (Slot Fields)
  finish : Fields → Decoded α
  apart : slots.Pairwise Slot.Apart
  get_empty : ∀ s ∈ slots, s.get empty = none
  /-- Nothing is kept but what is in the slots. -/
  ext : ∀ f g, (∀ s ∈ slots, s.get f = s.get g) → f = g
  /-- In an optional field `null` is the same as nothing. -/
  finish_blank : ∀ s ∈ slots, ∀ v, s.shape.blank = some v → ∀ f, s.get f = none →
    finish (s.set f (some v)) = finish f

namespace Schema

variable {α : Type}

/-- Reads the members of an object: each goes into its slot, and then the fields are finished. -/
def readMembers (S : Schema α) (child : Json → Decoded Expr) (members : List (String × Json)) : Decoded α :=
  (gather (putIn child S.slots) S.empty members).bind S.finish

/-- Reads the items of an array: each slot takes its own, and then the fields are finished. -/
def readItems (S : Schema α) (child : Json → Decoded Expr) (js : List Json) : Decoded α :=
  (takeIn child S.record js.length S.slots S.empty js).bind S.finish

/-- Reads the content of a node, by name or by position. -/
def read (S : Schema α) (child : Json → Decoded Expr) : Content → Decoded α
  | .object members => S.readMembers child members
  | .array js => S.readItems child js

/-- The same fields, put together to something else. -/
def map {β : Type} (S : Schema α) (wrap : α → β) : Schema β where
  record := S.record
  Fields := S.Fields
  empty := S.empty
  slots := S.slots
  finish f := (S.finish f).map wrap
  apart := S.apart
  get_empty := S.get_empty
  ext := S.ext
  finish_blank s hs v hv f hf := congrArg (Except.map wrap) (S.finish_blank s hs v hv f hf)

/-- A schema with a wrapper around its results reads what it did, wrapped. -/
theorem read_map {β : Type} (S : Schema α) (wrap : α → β) (child : Json → Decoded Expr) (content : Content) :
    (S.map wrap).read child content = (S.read child content).map wrap := by
  have hbind : ∀ fields : Decoded S.Fields,
      fields.bind (fun f => (S.finish f).map wrap) = (fields.bind S.finish).map wrap := by
    intro fields
    cases fields <;> rfl
  cases content <;> exact hbind _

end Schema

/-! ## The tables -/

/-- The slots of a matcher. -/
def matcherSchema : Schema Matcher where
  record := .matcher
  Fields := MatcherFields
  empty := {}
  slots := [
    ⟨"name", _, .text, true, (·.name), fun f v => { f with name := v }, fun _ _ => rfl⟩,
    ⟨"value", _, .text, true, (·.value), fun f v => { f with value := v }, fun _ _ => rfl⟩,
    ⟨"operator", _, .operator MatchOp, true, (·.op), fun f v => { f with op := v }, fun _ _ => rfl⟩]
  finish f := do return ⟨← need f.name "name", ← need f.value "value", ← need f.op "operator"⟩
  apart := by simp [Slot.apart_iff]
  get_empty := by simp
  ext := by rintro ⟨⟩ ⟨⟩; simp
  finish_blank := by simp +contextual [Shape.blank]

/-- The field of a literal, the only one. -/
def literalSlot {α : Type} (shape : Shape α) : Slot (Option α) :=
  ⟨"value", α, shape, true, id, fun _ v => v, fun _ _ => rfl⟩

/-- The slot of a literal. -/
def literalSchema {α : Type} (kind : Kind) (shape : Shape α) (hshape : shape.blank = none) : Schema α where
  record := .node kind
  Fields := Option α
  empty := none
  slots := [literalSlot shape]
  finish f := need f "value"
  apart := by simp
  get_empty := by simp [literalSlot]
  ext := by simp [literalSlot]
  finish_blank := by simp [literalSlot, hshape]

/-- The slots of a selector. -/
def selectorSchema : Schema Selector where
  record := .node .selector
  Fields := SelectorFields
  empty := {}
  slots := [
    ⟨"metric", _, .text, true, (·.metric), fun f v => { f with metric := v }, fun _ _ => rfl⟩,
    ⟨"labels", _, .matchers, false, (·.labels), fun f v => { f with labels := v }, fun _ _ => rfl⟩,
    ⟨"offset", _, .optional .text, false, (·.offset), fun f v => { f with offset := v }, fun _ _ => rfl⟩,
    ⟨"at", _, .optional .text, false, (·.instant), fun f v => { f with instant := v }, fun _ _ => rfl⟩,
    ⟨"range", _, .optional .text, false, (·.range), fun f v => { f with range := v }, fun _ _ => rfl⟩]
  finish f := do
    return ⟨← need f.metric "metric", f.labels.getD [], f.offset.join, f.instant.join, f.range.join⟩
  apart := by simp [Slot.apart_iff]
  get_empty := by simp
  ext := by rintro ⟨⟩ ⟨⟩; simp
  finish_blank := by simp +contextual [Shape.blank]

/-- The slots of a subquery. -/
def subquerySchema : Schema Expr where
  record := .node .subquery
  Fields := SubqueryFields
  empty := {}
  slots := [
    ⟨"expr", _, .child, true, (·.body), fun f v => { f with body := v }, fun _ _ => rfl⟩,
    ⟨"offset", _, .optional .text, false, (·.offset), fun f v => { f with offset := v }, fun _ _ => rfl⟩,
    ⟨"at", _, .optional .text, false, (·.instant), fun f v => { f with instant := v }, fun _ _ => rfl⟩,
    ⟨"range", _, .optional .text, false, (·.range), fun f v => { f with range := v }, fun _ _ => rfl⟩,
    ⟨"resolution", _, .optional .text, false, (·.resolution), fun f v => { f with resolution := v }, fun _ _ => rfl⟩]
  finish f := do
    return .subquery (← need f.body "expr") ⟨f.offset.join, f.instant.join, f.range.join, f.resolution.join⟩
  apart := by simp [Slot.apart_iff]
  get_empty := by simp
  ext := by rintro ⟨⟩ ⟨⟩; simp
  finish_blank := by simp +contextual [Shape.blank]

/-- The slots of a signed expression. -/
def unarySchema : Schema Expr where
  record := .node .unary
  Fields := UnaryFields
  empty := {}
  slots := [
    ⟨"op", _, .operator Sign, true, (·.op), fun f v => { f with op := v }, fun _ _ => rfl⟩,
    ⟨"expr", _, .child, true, (·.operand), fun f v => { f with operand := v }, fun _ _ => rfl⟩]
  finish f := do return .unary (← need f.op "op") (← need f.operand "expr")
  apart := by simp [Slot.apart_iff]
  get_empty := by simp
  ext := by rintro ⟨⟩ ⟨⟩; simp
  finish_blank := by simp +contextual [Shape.blank]

/-- The slots of an aggregation. -/
def aggregationSchema : Schema Expr where
  record := .node .aggregation
  Fields := AggregationFields
  empty := {}
  slots := [
    ⟨"op", _, .operator Aggregator, true, (·.op), fun f v => { f with op := v }, fun _ _ => rfl⟩,
    ⟨"expr", _, .child, true, (·.operand), fun f v => { f with operand := v }, fun _ _ => rfl⟩,
    ⟨"param", _, .optional .child, false, (·.param), fun f v => { f with param := v }, fun _ _ => rfl⟩,
    ⟨"by", _, .labels, false, (·.keep), fun f v => { f with keep := v }, fun _ _ => rfl⟩,
    ⟨"without", _, .labels, false, (·.drop), fun f v => { f with drop := v }, fun _ _ => rfl⟩]
  finish f := do
    return .aggregation (← need f.op "op") (← need f.operand "expr") f.param.join ⟨f.keep.getD [], f.drop.getD []⟩
  apart := by simp [Slot.apart_iff]
  get_empty := by simp
  ext := by rintro ⟨⟩ ⟨⟩; simp
  finish_blank := by simp +contextual [Shape.blank]

/-- The slots of a binary operation. -/
def binarySchema : Schema Expr where
  record := .node .binary
  Fields := BinaryFields
  empty := {}
  slots := [
    ⟨"op", _, .operator BinaryOp, true, (·.op), fun f v => { f with op := v }, fun _ _ => rfl⟩,
    ⟨"left", _, .child, true, (·.left), fun f v => { f with left := v }, fun _ _ => rfl⟩,
    ⟨"right", _, .child, true, (·.right), fun f v => { f with right := v }, fun _ _ => rfl⟩,
    ⟨"matchType", _, .optional (.operator MatchScope), false, (·.scope), fun f v => { f with scope := v },
      fun _ _ => rfl⟩,
    ⟨"matchLabels", _, .labels, false, (·.labels), fun f v => { f with labels := v }, fun _ _ => rfl⟩,
    ⟨"groupModifier", _, .optional (.operator GroupSide), false, (·.side), fun f v => { f with side := v },
      fun _ _ => rfl⟩,
    ⟨"groupLabels", _, .labels, false, (·.carried), fun f v => { f with carried := v }, fun _ _ => rfl⟩]
  finish f := do
    return .binary (← need f.op "op") (← need f.left "left") (← need f.right "right")
      ⟨f.scope.join, f.labels.getD [], f.side.join, f.carried.getD []⟩
  apart := by simp [Slot.apart_iff]
  get_empty := by simp
  ext := by rintro ⟨⟩ ⟨⟩; simp
  finish_blank := by simp +contextual [Shape.blank]

/-- The slots of a call. -/
def callSchema : Schema Expr where
  record := .node .call
  Fields := CallFields
  empty := {}
  slots := [
    ⟨"function", _, .text, true, (·.function), fun f v => { f with function := v }, fun _ _ => rfl⟩,
    ⟨"args", _, .children, false, (·.args), fun f v => { f with args := v }, fun _ _ => rfl⟩]
  finish f := do return .call (← need f.function "function") (f.args.getD [])
  apart := by simp [Slot.apart_iff]
  get_empty := by simp
  ext := by rintro ⟨⟩ ⟨⟩; simp
  finish_blank := by simp +contextual [Shape.blank]

/-- The table of a kind of node. -/
def nodeSchema : Kind → Schema Expr
  | .number => (literalSchema .number .number rfl).map .number
  | .text => (literalSchema .text .text rfl).map .text
  | .selector => selectorSchema.map .selector
  | .subquery => subquerySchema
  | .unary => unarySchema
  | .aggregation => aggregationSchema
  | .binary => binarySchema
  | .call => callSchema

/-! ## Decoding by table -/

section Tables

variable {child : Json → Decoded Expr} {σ : Type} {α β : Type}

/-- A required item is taken for its slot, and then the items behind it. -/
theorem take_bind {record : Record} {present : Nat} {slots : List (Slot σ)} {s : Slot σ} {f : σ}
    {finish : σ → Decoded β} {next : s.Value × List Json → Decoded β} (js : List Json) (hrequired : s.required = true)
    (h : ∀ a rest, next (a, rest) = (takeIn child record present slots (s.set f (some a)) rest).bind finish) :
    (take record present (s.shape.decode child) js).bind next =
      (takeIn child record present (s :: slots) f js).bind finish := by
  cases js with
  | nil =>
    rw [takeIn, if_pos hrequired]
    rfl
  | cons j js =>
    rw [takeIn, take]
    cases s.shape.decode child j with
    | error x => rfl
    | ok a => exact h a js

/-- An item with a default is taken for its slot if it is there, and then the items behind it. -/
theorem takeOr_bind {record : Record} {present : Nat} {slots : List (Slot σ)} {s : Slot σ} {f : σ}
    {finish : σ → Decoded β} {next : s.Value × List Json → Decoded β} (default : s.Value) (js : List Json)
    (hrequired : s.required = false)
    (hnone : next (default, []) = (takeIn child record present slots f []).bind finish)
    (h : ∀ a rest, next (a, rest) = (takeIn child record present slots (s.set f (some a)) rest).bind finish) :
    (takeOr default (s.shape.decode child) js).bind next =
      (takeIn child record present (s :: slots) f js).bind finish := by
  cases js with
  | nil =>
    rw [takeIn, if_neg (by simp [hrequired])]
    exact hnone
  | cons j js =>
    rw [takeIn, takeOr]
    cases s.shape.decode child j with
    | error x => rfl
    | ok a => exact h a js

/-- Behind the last slot the fields are finished. -/
theorem done_bind {record : Record} {present : Nat} {f : σ}
    {finish : σ → Decoded α} {a : α} (js : List Json) (h : finish f = .ok a) :
    ((done record present js).bind fun _ => .ok a) = (takeIn child record present [] f js).bind finish := by
  rw [takeIn]
  cases js with
  | nil => exact h.symm
  | cons j js => rfl

/-- The fields of a matcher are put into its slots. -/
theorem matcher_put (child : Json → Decoded Expr) : MatcherFields.put = putIn child matcherSchema.slots := by
  funext f key j
  unfold MatcherFields.put
  split <;> simp_all [matcherSchema, putIn, Slot.put, Shape.decode]

/-- A matcher is read by its schema. -/
theorem matcher_object (ms : List (String × Json)) :
    matcher (.object ms) = matcherSchema.readMembers child ms := by
  show (gather MatcherFields.put {} ms).bind matcherSchema.finish = _
  rw [matcher_put child]
  rfl

/-- The value of a literal is put into its slot. -/
theorem literal_put (shape : Shape α) : putValue (shape.decode child) = putIn child [literalSlot shape] := by
  funext f key j
  unfold putValue
  split <;> simp_all [literalSlot, putIn, Slot.put]

/-- A literal is read by its schema. -/
theorem literal_read (kind : Kind) (shape : Shape α) (hshape : shape.blank = none) (content : Content) :
    literal kind (shape.decode child) content = (literalSchema kind shape hshape).read child content := by
  cases content with
  | object ms =>
    show (gather (putValue (shape.decode child)) none ms).bind (literalSchema kind shape hshape).finish = _
    rw [literal_put]
    rfl
  | array js =>
    refine take_bind (s := literalSlot shape) js rfl fun a rest => ?_
    exact done_bind rest rfl

/-- The fields of a selector are put into its slots. -/
theorem selector_put (child : Json → Decoded Expr) : SelectorFields.put = putIn child selectorSchema.slots := by
  funext f key j
  unfold SelectorFields.put
  split <;> simp_all [selectorSchema, putIn, Slot.put, Shape.decode]

/-- A selector is read by its schema. -/
theorem selector_read (content : Content) : selector content = selectorSchema.read child content := by
  cases content with
  | object ms =>
    show (gather SelectorFields.put {} ms).bind selectorSchema.finish = _
    rw [selector_put child]
    rfl
  | array js =>
    refine take_bind (s := selectorSchema.slots[0]) js rfl fun metric rest => ?_
    refine takeOr_bind (s := selectorSchema.slots[1]) [] rest rfl ?_ fun labels rest => ?_
    · rfl
    refine takeOr_bind (s := selectorSchema.slots[2]) none rest rfl ?_ fun offset rest => ?_
    · rfl
    refine takeOr_bind (s := selectorSchema.slots[3]) none rest rfl ?_ fun instant rest => ?_
    · rfl
    refine takeOr_bind (s := selectorSchema.slots[4]) none rest rfl ?_ fun range rest => ?_
    · rfl
    exact done_bind rest rfl

/-- The fields of a subquery are put into its slots. -/
theorem subquery_put : SubqueryFields.put child = putIn child subquerySchema.slots := by
  funext f key j
  unfold SubqueryFields.put
  split <;> simp_all [subquerySchema, putIn, Slot.put, Shape.decode]

/-- A subquery is read by its schema. -/
theorem subquery_read (content : Content) : subquery child content = subquerySchema.read child content := by
  cases content with
  | object ms =>
    show (gather (SubqueryFields.put child) {} ms).bind subquerySchema.finish = _
    rw [subquery_put]
    rfl
  | array js =>
    refine take_bind (s := subquerySchema.slots[0]) js rfl fun body rest => ?_
    refine takeOr_bind (s := subquerySchema.slots[1]) none rest rfl ?_ fun offset rest => ?_
    · rfl
    refine takeOr_bind (s := subquerySchema.slots[2]) none rest rfl ?_ fun instant rest => ?_
    · rfl
    refine takeOr_bind (s := subquerySchema.slots[3]) none rest rfl ?_ fun range rest => ?_
    · rfl
    refine takeOr_bind (s := subquerySchema.slots[4]) none rest rfl ?_ fun resolution rest => ?_
    · rfl
    exact done_bind rest rfl

/-- The fields of a sign are put into its slots. -/
theorem unary_put : UnaryFields.put child = putIn child unarySchema.slots := by
  funext f key j
  unfold UnaryFields.put
  split <;> simp_all [unarySchema, putIn, Slot.put, Shape.decode]

/-- A sign is read by its schema. -/
theorem unary_read (content : Content) : unary child content = unarySchema.read child content := by
  cases content with
  | object ms =>
    show (gather (UnaryFields.put child) {} ms).bind unarySchema.finish = _
    rw [unary_put]
    rfl
  | array js =>
    refine take_bind (s := unarySchema.slots[0]) js rfl fun op rest => ?_
    refine take_bind (s := unarySchema.slots[1]) rest rfl fun operand rest => ?_
    exact done_bind rest rfl

/-- The fields of an aggregation are put into its slots. -/
theorem aggregation_put : AggregationFields.put child = putIn child aggregationSchema.slots := by
  funext f key j
  unfold AggregationFields.put
  split <;> simp_all [aggregationSchema, putIn, Slot.put, Shape.decode]

/-- An aggregation is read by its schema. -/
theorem aggregation_read (content : Content) :
    aggregation child content = aggregationSchema.read child content := by
  cases content with
  | object ms =>
    show (gather (AggregationFields.put child) {} ms).bind aggregationSchema.finish = _
    rw [aggregation_put]
    rfl
  | array js =>
    refine take_bind (s := aggregationSchema.slots[0]) js rfl fun op rest => ?_
    refine take_bind (s := aggregationSchema.slots[1]) rest rfl fun operand rest => ?_
    refine takeOr_bind (s := aggregationSchema.slots[2]) none rest rfl ?_ fun param rest => ?_
    · rfl
    refine takeOr_bind (s := aggregationSchema.slots[3]) [] rest rfl ?_ fun keep rest => ?_
    · rfl
    refine takeOr_bind (s := aggregationSchema.slots[4]) [] rest rfl ?_ fun drop rest => ?_
    · rfl
    exact done_bind rest rfl

/-- The fields of a binary operation are put into its slots. -/
theorem binary_put : BinaryFields.put child = putIn child binarySchema.slots := by
  funext f key j
  unfold BinaryFields.put
  split <;> simp_all [binarySchema, putIn, Slot.put, Shape.decode]

/-- A binary operation is read by its schema. -/
theorem binary_read (content : Content) : binary child content = binarySchema.read child content := by
  cases content with
  | object ms =>
    show (gather (BinaryFields.put child) {} ms).bind binarySchema.finish = _
    rw [binary_put]
    rfl
  | array js =>
    refine take_bind (s := binarySchema.slots[0]) js rfl fun op rest => ?_
    refine take_bind (s := binarySchema.slots[1]) rest rfl fun left rest => ?_
    refine take_bind (s := binarySchema.slots[2]) rest rfl fun right rest => ?_
    refine takeOr_bind (s := binarySchema.slots[3]) none rest rfl ?_ fun scope rest => ?_
    · rfl
    refine takeOr_bind (s := binarySchema.slots[4]) [] rest rfl ?_ fun matched rest => ?_
    · rfl
    refine takeOr_bind (s := binarySchema.slots[5]) none rest rfl ?_ fun side rest => ?_
    · rfl
    refine takeOr_bind (s := binarySchema.slots[6]) [] rest rfl ?_ fun carried rest => ?_
    · rfl
    exact done_bind rest rfl

/-- The fields of a call are put into its slots. -/
theorem call_put : CallFields.put child = putIn child callSchema.slots := by
  funext f key j
  unfold CallFields.put
  split <;> simp_all [callSchema, putIn, Slot.put, Shape.decode]

/-- A call is read by its schema. -/
theorem call_read (content : Content) : call child content = callSchema.read child content := by
  cases content with
  | object ms =>
    show (gather (CallFields.put child) {} ms).bind callSchema.finish = _
    rw [call_put]
    rfl
  | array js =>
    refine take_bind (s := callSchema.slots[0]) js rfl fun function rest => ?_
    refine takeOr_bind (s := callSchema.slots[1]) [] rest rfl ?_ fun args rest => ?_
    · rfl
    exact done_bind rest rfl

/-- Every node is decoded by the table of its kind. -/
theorem node_eq_read (child : Json → Decoded Expr) (kind : Kind) (content : Content) :
    node child kind content = (nodeSchema kind).read child content := by
  have hmap : ∀ {α : Type} (x : Decoded α) (wrap : α → Expr), (x.bind fun a => .ok (wrap a)) = x.map wrap := by
    intro α x wrap
    cases x <;> rfl
  cases kind with
  | number =>
    rw [nodeSchema, Schema.read_map]
    exact (hmap _ _).trans (congrArg (Except.map Expr.number) (literal_read .number .number rfl content))
  | text =>
    rw [nodeSchema, Schema.read_map]
    exact (hmap _ _).trans (congrArg (Except.map Expr.text) (literal_read .text .text rfl content))
  | selector =>
    rw [nodeSchema, Schema.read_map, ← selector_read]
    exact hmap _ _
  | subquery => exact subquery_read content
  | unary => exact unary_read content
  | aggregation => exact aggregation_read content
  | binary => exact binary_read content
  | call => exact call_read content

end Tables

end MetricQuery.Decode
