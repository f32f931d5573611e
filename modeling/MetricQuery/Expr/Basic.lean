import MetricQuery.Number.Binary64
import MetricQuery.Operator

/-!
# Expression trees

The tree of a query. A node owns its children, so two trees never share one. The parts of a node
that hold no expressions are structures of their own: `Selector` for a metric with its matchers and
time modifiers, `Window` for the time modifiers of a subquery, `Grouping` for the labels of an
aggregation and `Matching` for how the two sides of a binary operation are paired.

A time modifier is an `Option String` and is kept as it was given: `none` and `some ""` are
different trees, although neither is written into a query.
-/

set_option autoImplicit false

namespace MetricQuery

/-- A test on one label. -/
structure Matcher where
  name : String
  value : String
  op : MatchOp
deriving DecidableEq, Repr

/-- The series of one metric, at an instant or over a range. -/
structure Selector where
  metric : String
  matchers : List Matcher := []
  /-- How far back in time to look. -/
  offset : Option String := none
  /-- The instant at which to evaluate, whatever the query's own. -/
  instant : Option String := none
  /-- How much time the samples cover. -/
  range : Option String := none
deriving DecidableEq, Repr

/-- The time modifiers of a subquery. -/
structure Window where
  offset : Option String := none
  instant : Option String := none
  range : Option String := none
  /-- The step between two evaluations. -/
  resolution : Option String := none
deriving DecidableEq, Repr

/-- The labels of an aggregation: those its result keeps, or those it drops. -/
structure Grouping where
  keep : List String := []
  drop : List String := []
deriving DecidableEq, Repr

/-- How a binary operation pairs the elements of its sides. -/
structure Matching where
  scope : Option MatchScope := none
  labels : List String := []
  side : Option GroupSide := none
  /-- Labels that the result takes over from the other side. -/
  carried : List String := []
deriving DecidableEq, Repr

/-- A query. -/
inductive Expr where
  | number (value : Double)
  | text (value : String)
  | selector (selector : Selector)
  | subquery (body : Expr) (window : Window)
  | unary (op : Sign) (operand : Expr)
  | aggregation (op : Aggregator) (operand : Expr) (param : Option Expr) (grouping : Grouping)
  | binary (op : BinaryOp) (left right : Expr) (matching : Matching)
  | call (function : String) (args : List Expr)

/-- The kinds of expressions. -/
inductive Kind where
  | number | text | selector | subquery | unary | aggregation | binary | call
deriving DecidableEq, Repr

/-- The name of a kind in stored trees. -/
def Kind.tag : Kind → String
  | number => "numberLiteralExpr"
  | text => "stringLiteralExpr"
  | selector => "vectorExpr"
  | subquery => "subqueryExpr"
  | unary => "unaryExpr"
  | aggregation => "aggregationExpr"
  | binary => "binaryExpr"
  | call => "funcCallExpr"

instance : Vocabulary Kind where
  all := [.number, .text, .selector, .subquery, .unary, .aggregation, .binary, .call]
  name := Kind.tag

/-- A modifier counts when it is given and not empty. -/
def present (modifier : Option String) : Option String :=
  modifier.filter fun s => decide (s ≠ "")

/-- Whether a selector yields a range of samples for each series. -/
def Selector.isRange (s : Selector) : Bool :=
  (present s.range).isSome

namespace Expr

/-- The kind of the node at the root. -/
def kind : Expr → Kind
  | number _ => .number
  | text _ => .text
  | selector _ => .selector
  | subquery .. => .subquery
  | unary .. => .unary
  | aggregation .. => .aggregation
  | binary .. => .binary
  | call .. => .call

mutual

/-- Equality of trees in which numbers are compared as numbers: a tree with a NaN does not equal
itself, and the two zeros are equal. -/
def same : Expr → Expr → Bool
  | number x, number y => x.same y
  | text s, text t => decide (s = t)
  | selector s, selector t => decide (s = t)
  | subquery a v, subquery b w => same a b && decide (v = w)
  | unary o a, unary p b => decide (o = p) && same a b
  | aggregation o a p g, aggregation o' a' p' g' =>
    decide (o = o') && same a a' && sameParam p p' && decide (g = g')
  | binary o l r m, binary o' l' r' m' =>
    decide (o = o') && same l l' && same r r' && decide (m = m')
  | call f as, call g bs => decide (f = g) && sameArgs as bs
  | _, _ => false

/-- Whether parameters are the same, both missing or both there. -/
def sameParam : Option Expr → Option Expr → Bool
  | none, none => true
  | some a, some b => same a b
  | _, _ => false

/-- Whether arguments are the same, one by one. -/
def sameArgs : List Expr → List Expr → Bool
  | [], [] => true
  | a :: as, b :: bs => same a b && sameArgs as bs
  | _, _ => false

end

end Expr

end MetricQuery
