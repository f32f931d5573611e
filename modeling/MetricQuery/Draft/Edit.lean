import MetricQuery.Expr.Validate

/-!
# Edits

An edit gives one field of a node a new value, adds an item to a list, or replaces a list. It acts
on the outermost node of an expression, or on a matcher, and leaves all other fields alone, with two
exceptions that keep a node meaningful: the labels that an aggregation keeps and those that it drops
exclude each other, so setting one list clears the other; and the labels of a pairing come together
with its keyword.

A name must not be empty, and an edit refuses one that is. It also refuses a node that does not have
its field.
-/

set_option autoImplicit false

namespace MetricQuery

/-- A change to a node. Operands are given as `ε` and matchers as `μ`. -/
inductive Edit (ε μ : Type) where
  | number (value : Double)
  | text (value : String)
  | metric (name : String)
  /-- Adds a matcher, given by its parts. -/
  | addMatch (name : String) (op : MatchOp) (value : String)
  | addMatcher (matcher : μ)
  /-- Replaces all matchers. -/
  | matchers (matchers : List μ)
  | offset (modifier : String)
  | instant (modifier : String)
  | range (modifier : String)
  | resolution (modifier : String)
  | labelName (name : String)
  | labelValue (value : String)
  | labelOp (op : MatchOp)
  /-- The expression under a sign, an aggregation or a subquery. -/
  | operand (e : ε)
  | sign (op : Sign)
  | aggregator (op : Aggregator)
  | param (e : ε)
  | keep (labels : List String)
  | drop (labels : List String)
  | operator (op : BinaryOp)
  | left (e : ε)
  | right (e : ε)
  | pair (scope : MatchScope) (labels : List String)
  | group (side : GroupSide) (labels : List String)
  | function (name : String)
  | addArg (e : ε)
  /-- Replaces all arguments. -/
  | args (es : List ε)

/-- Why a node refuses an edit. -/
inductive EditFault where
  | invalid (violation : Violation)
  /-- The node does not have the field. -/
  | misplaced
deriving DecidableEq, Repr

namespace EditFault

/-- A name that must not be empty. -/
def name (name : String) (violation : Violation) : Except EditFault String :=
  match required name violation with
  | .ok name => .ok name
  | .error v => .error (.invalid v)

end EditFault

/-- An edit of a matcher. -/
def Matcher.edit {ε μ : Type} (m : Matcher) : Edit ε μ → Except EditFault Matcher
  | .labelName name => do return { m with name := ← EditFault.name name .emptyLabelName }
  | .labelValue value => .ok { m with value }
  | .labelOp op => .ok { m with op }
  | _ => .error .misplaced

/-- An edit of a selector. -/
def Selector.edit {ε : Type} (s : Selector) : Edit ε Matcher → Except EditFault Selector
  | .metric name => do return { s with metric := ← EditFault.name name .emptyMetric }
  | .addMatch name op value => do
    let name ← EditFault.name name .emptyLabelName
    return { s with matchers := s.matchers ++ [⟨name, value, op⟩] }
  | .addMatcher m => .ok { s with matchers := s.matchers ++ [m] }
  | .matchers matchers => .ok { s with matchers }
  | .offset modifier => .ok { s with offset := some modifier }
  | .instant modifier => .ok { s with instant := some modifier }
  | .range modifier => .ok { s with range := some modifier }
  | _ => .error .misplaced

/-- An edit of a window. -/
def Window.edit {ε μ : Type} (w : Window) : Edit ε μ → Except EditFault Window
  | .offset modifier => .ok { w with offset := some modifier }
  | .instant modifier => .ok { w with instant := some modifier }
  | .range modifier => .ok { w with range := some modifier }
  | .resolution modifier => .ok { w with resolution := some modifier }
  | _ => .error .misplaced

/-- Keeping some labels and dropping others exclude each other. -/
def Grouping.edit {ε μ : Type} (_ : Grouping) : Edit ε μ → Except EditFault Grouping
  | .keep labels => .ok ⟨labels, []⟩
  | .drop labels => .ok ⟨[], labels⟩
  | _ => .error .misplaced

/-- An edit of a matching. -/
def Matching.edit {ε μ : Type} (m : Matching) : Edit ε μ → Except EditFault Matching
  | .pair scope labels => .ok { m with scope := some scope, labels }
  | .group side labels => .ok { m with side := some side, carried := labels }
  | _ => .error .misplaced

/-- Changes the outermost node of an expression. -/
def Expr.edit : Expr → Edit Expr Matcher → Except EditFault Expr
  | number _, change =>
    match change with
    | .number value => .ok (number value)
    | _ => .error .misplaced
  | text _, change =>
    match change with
    | .text value => .ok (text value)
    | _ => .error .misplaced
  | selector s, change => do return selector (← s.edit change)
  | subquery body w, change =>
    match change with
    | .operand e => .ok (subquery e w)
    | change => do return subquery body (← w.edit change)
  | unary op e, change =>
    match change with
    | .sign op => .ok (unary op e)
    | .operand e => .ok (unary op e)
    | _ => .error .misplaced
  | aggregation op e param g, change =>
    match change with
    | .aggregator op => .ok (aggregation op e param g)
    | .operand e => .ok (aggregation op e param g)
    | .param p => .ok (aggregation op e (some p) g)
    | change => do return aggregation op e param (← g.edit change)
  | binary op l r m, change =>
    match change with
    | .operator op => .ok (binary op l r m)
    | .left l => .ok (binary op l r m)
    | .right r => .ok (binary op l r m)
    | change => do return binary op l r (← m.edit change)
  | call f args, change =>
    match change with
    | .function name => do return call (← EditFault.name name .emptyFunction) args
    | .addArg e => .ok (call f (args ++ [e]))
    | .args es => .ok (call f es)
    | _ => .error .misplaced

end MetricQuery
