/-!
# Operators

The operators and keywords of the query language, each a finite type with the names by which its
values are stored. `Vocabulary` is what reading and writing such a type needs: its values in a fixed
order, and the name of each.

Binding strength decides parentheses: a higher `precedence` binds tighter, and only `^` groups to
the right.
-/

set_option autoImplicit false

namespace MetricQuery

/-- A finite type whose values are stored by name. -/
class Vocabulary (α : Type) where
  /-- All values, in the order in which messages list them. -/
  all : List α
  name : α → String

namespace Vocabulary

/-- The first value with the given name. -/
def ofName? {α : Type} [Vocabulary α] (name : String) : Option α :=
  (all (α := α)).find? fun a => decide (Vocabulary.name a = name)

/-- The names of all values. -/
def names (α : Type) [Vocabulary α] : List String :=
  (all (α := α)).map Vocabulary.name

/-- What is found by a name has the name. -/
theorem name_of_ofName? {α : Type} [Vocabulary α] {name : String} {a : α} (h : ofName? name = some a) :
    Vocabulary.name a = name := by
  have hfound := List.find?_some h
  exact of_decide_eq_true hfound

end Vocabulary

/-- Operators between two expressions. -/
inductive BinaryOp where
  | add | sub | mul | div | mod | pow
  | equal | notEqual | greater | less | greaterEqual | lessEqual
  | and | or | excluding | atan2
deriving DecidableEq, Repr

namespace BinaryOp

/-- How a binary operator is written. -/
def symbol : BinaryOp → String
  | add => "+"
  | sub => "-"
  | mul => "*"
  | div => "/"
  | mod => "%"
  | pow => "^"
  | equal => "=="
  | notEqual => "!="
  | greater => ">"
  | less => "<"
  | greaterEqual => ">="
  | lessEqual => "<="
  | and => "and"
  | or => "or"
  | excluding => "unless"
  | atan2 => "atan2"

/-- Binding strength, higher binds tighter. -/
def precedence : BinaryOp → Nat
  | or => 1
  | and | excluding => 2
  | equal | notEqual | greater | less | greaterEqual | lessEqual => 3
  | add | sub => 4
  | mul | div | mod | atan2 => 5
  | pow => 6

/-- `a ^ b ^ c` is `a ^ (b ^ c)`; all other operators group to the left. -/
def isRightAssociative : BinaryOp → Bool
  | pow => true
  | _ => false

end BinaryOp

instance : Vocabulary BinaryOp where
  all := [.add, .sub, .mul, .div, .mod, .pow, .equal, .notEqual, .greater, .less, .greaterEqual,
    .lessEqual, .and, .or, .excluding, .atan2]
  name := BinaryOp.symbol

/-- The signs that may stand before an expression. -/
inductive Sign where
  | plus | minus
deriving DecidableEq, Repr

/-- How a sign is written. -/
def Sign.symbol : Sign → String
  | plus => "+"
  | minus => "-"

instance : Vocabulary Sign where
  all := [.plus, .minus]
  name := Sign.symbol

/-- Operators that aggregate the elements of a vector. -/
inductive Aggregator where
  | sum | min | max | avg | stddev | stdvar | count | group
  | countValues | bottomk | topk | quantile | limitk | limitRatio
deriving DecidableEq, Repr

/-- How an aggregation operator is written. -/
def Aggregator.symbol : Aggregator → String
  | sum => "sum"
  | min => "min"
  | max => "max"
  | avg => "avg"
  | stddev => "stddev"
  | stdvar => "stdvar"
  | count => "count"
  | group => "group"
  | countValues => "count_values"
  | bottomk => "bottomk"
  | topk => "topk"
  | quantile => "quantile"
  | limitk => "limitk"
  | limitRatio => "limit_ratio"

instance : Vocabulary Aggregator where
  all := [.sum, .min, .max, .avg, .stddev, .stdvar, .count, .group, .countValues, .bottomk, .topk,
    .quantile, .limitk, .limitRatio]
  name := Aggregator.symbol

/-- How a label is compared with the value of a matcher. -/
inductive MatchOp where
  | equal | notEqual | regexp | notRegexp
deriving DecidableEq, Repr

namespace MatchOp

/-- How the operator of a matcher is written. -/
def symbol : MatchOp → String
  | equal => "="
  | notEqual => "!="
  | regexp => "=~"
  | notRegexp => "!~"

/-- The operator of a matcher that names none. -/
def standard : MatchOp := equal

end MatchOp

instance : Vocabulary MatchOp where
  all := [.equal, .notEqual, .regexp, .notRegexp]
  name := MatchOp.symbol

/-- Which labels count when the elements of two vectors are paired. -/
inductive MatchScope where
  /-- Only the listed labels. -/
  | onLabels
  /-- All labels but the listed ones. -/
  | ignoringLabels
deriving DecidableEq, Repr

/-- The keyword of query text, which is not the stored name. -/
def MatchScope.keyword : MatchScope → String
  | onLabels => "on"
  | ignoringLabels => "ignoring"

instance : Vocabulary MatchScope where
  all := [.onLabels, .ignoringLabels]
  name
    | .onLabels => "on"
    | .ignoringLabels => "ignore"

/-- The side that may have several elements in a pairing. -/
inductive GroupSide where
  | left | right
deriving DecidableEq, Repr

/-- The keyword for a side. -/
def GroupSide.keyword : GroupSide → String
  | left => "group_left"
  | right => "group_right"

instance : Vocabulary GroupSide where
  all := [.left, .right]
  name
    | .left => "left"
    | .right => "right"

end MetricQuery
