import MetricQuery.Expr.Basic
import MetricQuery.Text.Blank

/-!
# Matchers from arguments

A matcher is written as a name, an operator and a value: `job=api`, `code!~5..`. The name ends at
the first character that can start an operator, and white space around it does not count. The value
is taken as it is.
-/

set_option autoImplicit false

namespace MetricQuery

/-- Why an argument is no matcher. -/
inductive LabelFault where
  | noOperator | unknownOperator | emptyName
deriving DecidableEq, Repr

/-- What is said of an argument that is no matcher. -/
def LabelFault.message (argument : String) : LabelFault → String
  | noOperator => "Invalid label matcher '" ++ argument ++ "': expected name=value"
  | unknownOperator => "Invalid label matcher '" ++ argument ++ "': unknown operator"
  | emptyName => "Invalid label matcher '" ++ argument ++ "'"

/-- A character that can start an operator. -/
def startsOperator (c : Char) : Bool :=
  c = '=' || c = '!'

/-- The operator at the head of a text, the longest that fits, and what follows it. -/
def splitOperator? : List Char → Option (MatchOp × List Char)
  | '=' :: '~' :: value => some (.regexp, value)
  | '!' :: '~' :: value => some (.notRegexp, value)
  | '!' :: '=' :: value => some (.notEqual, value)
  | '=' :: value => some (.equal, value)
  | _ => none

/-- The matcher that an argument stands for. -/
def Matcher.ofArgument (argument : List Char) : Except LabelFault Matcher :=
  match argument.dropWhile fun c => !startsOperator c with
  | [] => .error .noOperator
  | rest =>
    match splitOperator? rest with
    | none => .error .unknownOperator
    | some (op, value) =>
      match Text.trim (argument.takeWhile fun c => !startsOperator c) with
      | [] => .error .emptyName
      | name => .ok ⟨String.ofList name, String.ofList value, op⟩

end MetricQuery
