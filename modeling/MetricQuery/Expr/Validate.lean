import MetricQuery.Expr.Basic

/-!
# Valid trees

A metric, a label and a function need a name that is not empty. Trees from elsewhere can break
this, and `Expr.validate` reports the first place that does: a node before its children, and
children in the order of a walk from left to right, the operand of an aggregation before its
parameter.
-/

set_option autoImplicit false

namespace MetricQuery

/-- An empty name where one is required. -/
inductive Violation where
  | emptyMetric | emptyLabelName | emptyFunction
deriving DecidableEq, Repr

/-- What is said of a violation. -/
def Violation.message : Violation → String
  | emptyMetric => "Validation error: metric name must not be empty"
  | emptyLabelName => "Validation error: label name must not be empty"
  | emptyFunction => "Validation error: function name must not be empty"

/-- The name itself, unless it is empty. -/
def required (name : String) (violation : Violation) : Except Violation String :=
  if name = "" then .error violation else .ok name

/-- A matcher must have a name. -/
def Matcher.validate (m : Matcher) : Except Violation Unit := do
  let _ ← required m.name .emptyLabelName

/-- The first matcher without a label name. -/
def validateMatchers : List Matcher → Except Violation Unit
  | [] => .ok ()
  | m :: ms => do
    m.validate
    validateMatchers ms

/-- A selector must have a metric, and each of its matchers a name. -/
def Selector.validate (s : Selector) : Except Violation Unit := do
  let _ ← required s.metric .emptyMetric
  validateMatchers s.matchers

namespace Expr

mutual

/-- The first violation of a tree. -/
def validate : Expr → Except Violation Unit
  | number _ => .ok ()
  | text _ => .ok ()
  | selector s => s.validate
  | subquery body _ => body.validate
  | unary _ e => e.validate
  | aggregation _ e param _ => do
    e.validate
    validateParam param
  | binary _ l r _ => do
    l.validate
    r.validate
  | call f args => do
    let _ ← required f .emptyFunction
    validateArgs args

/-- A parameter must be valid as an expression, if it is there. -/
def validateParam : Option Expr → Except Violation Unit
  | none => .ok ()
  | some e => e.validate

/-- Arguments must be valid as expressions, from first to last. -/
def validateArgs : List Expr → Except Violation Unit
  | [] => .ok ()
  | e :: es => do
    e.validate
    validateArgs es

end

end Expr

end MetricQuery
