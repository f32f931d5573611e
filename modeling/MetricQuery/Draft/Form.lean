import MetricQuery.Expr.Validate

/-!
# Forms of new nodes

A form is a node that still lacks its operands: a sign, an operator, a function name. Given
arguments that fit, it makes the node. Numbers and strings among the arguments become literals. A
literal by itself needs no argument: without one it is zero, or the empty string.
-/

set_option autoImplicit false

namespace MetricQuery

/-- What can stand in an argument place. -/
inductive Parameter where
  | operand | number | text | texts
deriving DecidableEq, Repr

/-- An argument; operands are given as `ε`. -/
inductive Argument (ε : Type) where
  | operand (e : ε)
  | number (value : Double)
  | text (value : String)
  /-- Any number of strings, one argument each. -/
  | texts (values : List String)

/-- The expressions that an argument brings to a call. -/
def Argument.exprs : Argument Expr → List Expr
  | operand e => [e]
  | number x => [.number x]
  | text s => [.text s]
  | texts ss => ss.map .text

/-- A function's name that is known not to be empty. -/
abbrev FunctionName := { name : String // name ≠ "" }

/-- The names in a list, none of which is empty. -/
def functionNames (names : List String) (h : ∀ name ∈ names, name ≠ "" := by decide) :
    List FunctionName :=
  names.attachWith (· ≠ "") h

/-- A node without its operands. -/
inductive Form where
  | number | text | selector | subquery
  | unary (op : Sign)
  | aggregation (op : Aggregator)
  | binary (op : BinaryOp)
  /-- A call by any name, which is checked. -/
  | call (function : String)
  /-- A call by a name that needs no check. -/
  | named (function : FunctionName)

/-- Why a form makes no node. -/
inductive FormFault where
  | invalid (violation : Violation)
  /-- The arguments do not fit the form. -/
  | mismatch
deriving DecidableEq, Repr

namespace Form

/-- An aggregation takes its operand last; a number or a string before it is the parameter. -/
def makeAggregation (op : Aggregator) : List (Argument Expr) → Except FormFault Expr
  | [.operand e] => .ok (.aggregation op e none {})
  | [.number x, .operand e] => .ok (.aggregation op e (some (.number x)) {})
  | [.text s, .operand e] => .ok (.aggregation op e (some (.text s)) {})
  | _ => .error .mismatch

/-- The node of a form with its arguments. -/
def make (form : Form) (args : List (Argument Expr)) : Except FormFault Expr :=
  match form with
  | number =>
    match args with
    | [] => .ok (.number (Double.zero false))
    | [.number x] => .ok (.number x)
    | _ => .error .mismatch
  | text =>
    match args with
    | [] => .ok (.text "")
    | [.text s] => .ok (.text s)
    | _ => .error .mismatch
  | selector =>
    match args with
    | [.text metric] =>
      match required metric .emptyMetric with
      | .ok metric => .ok (.selector { metric })
      | .error v => .error (.invalid v)
    | _ => .error .mismatch
  | subquery =>
    match args with
    | [.operand e] => .ok (.subquery e {})
    | _ => .error .mismatch
  | unary op =>
    match args with
    | [.operand e] => .ok (.unary op e)
    | _ => .error .mismatch
  | aggregation op => makeAggregation op args
  | binary op =>
    match args with
    | [.operand l, .operand r] => .ok (.binary op l r {})
    | _ => .error .mismatch
  | call function =>
    match required function .emptyFunction with
    | .ok function => .ok (.call function (args.flatMap Argument.exprs))
    | .error v => .error (.invalid v)
  | named function => .ok (.call function (args.flatMap Argument.exprs))

end Form

end MetricQuery
