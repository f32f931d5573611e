import MetricQuery.Expr.Basic
import MetricQuery.Expr.Literal
import MetricQuery.Text.Quoted

/-!
# Query text

The text of a tree. Parentheses are written only where the shape of the tree would be lost:

* around an operand that binds weaker than its operator, or as strongly on the side towards which
  the operator does not group;
* around a signed left operand of `^`, since `-a ^ b` is `-(a ^ b)`;
* around a binary operation under a sign;
* around the body of a subquery when brackets behind it would belong to a part of it.

A string is written raw on its own. As a matcher's value, an argument or a parameter it is quoted.
-/

set_option autoImplicit false

namespace MetricQuery

/-- Labels with a comma and a blank between them. -/
def labelList (labels : List String) : List Char :=
  [',', ' '].intercalate (labels.map String.toList)

/-- A text in parentheses. -/
def parenthesized (text : List Char) : List Char :=
  '(' :: (text ++ [')'])

/-- The text, in parentheses when `needed`. -/
def parenthesizedIf (needed : Bool) (text : List Char) : List Char :=
  if needed then parenthesized text else text

/-- The text of a modifier, when it counts. -/
def modifierText (modifier : Option String) (write : List Char → List Char) : List Char :=
  match present modifier with
  | some s => write s.toList
  | none => []

/-- The modifiers that stand behind selectors and subqueries alike. -/
def timeModifiers (offset instant : Option String) : List Char :=
  modifierText offset (fun s => " offset ".toList ++ s) ++
    modifierText instant (fun s => " @ ".toList ++ s)

/-- `name="value"`. -/
def Matcher.chars (m : Matcher) : List Char :=
  m.name.toList ++ m.op.symbol.toList ++ Quoted.quote m.value.toList

namespace Selector

/-- The matchers in their braces; nothing when there are none. -/
def matcherChars : List Matcher → List Char
  | [] => []
  | ms => '{' :: ([','].intercalate (ms.map Matcher.chars) ++ ['}'])

/-- A selector as it is written: its metric, its matchers, its range and its modifiers. -/
def chars (s : Selector) : List Char :=
  s.metric.toList ++ matcherChars s.matchers ++
    modifierText s.range (fun r => '[' :: (r ++ [']'])) ++ timeModifiers s.offset s.instant

end Selector

/-- What stands behind the body of a subquery. A resolution is written only with a range. -/
def Window.chars (w : Window) : List Char :=
  modifierText w.range (fun r => '[' :: (r ++ ':' :: (modifierText w.resolution id ++ [']']))) ++
    timeModifiers w.offset w.instant

/-- What stands between an aggregation's name and its arguments. -/
def Grouping.chars (g : Grouping) : List Char :=
  (if g.drop = [] then [] else " without (".toList ++ labelList g.drop ++ ") ".toList) ++
    (if g.keep = [] then [] else " by (".toList ++ labelList g.keep ++ ") ".toList)

namespace Matching

/-- `on(…)` or `ignoring(…)`, also for an empty list of labels. -/
def scopeChars (m : Matching) : List Char :=
  match m.scope with
  | some scope => scope.keyword.toList ++ parenthesized (labelList m.labels) ++ [' ']
  | none => []

/-- `group_left` or `group_right`, with its labels only when there are some. -/
def sideChars (m : Matching) : List Char :=
  match m.side with
  | some side =>
    side.keyword.toList ++
      (if m.carried = [] then [] else parenthesized (labelList m.carried)) ++ [' ']
  | none => []

/-- A matching as it is written behind the operator. -/
def chars (m : Matching) : List Char :=
  m.scopeChars ++ m.sideChars

end Matching

/-- The two sides of a binary operation. -/
inductive Side where
  | left | right
deriving DecidableEq, Repr

namespace Expr

/-- Whether the text of an expression is a number with a minus sign before it. -/
def isNegativeNumber : Expr → Bool
  | number x => x.isNegative && !x.isNaN
  | _ => false

/-- Whether an expression is a binary operation. -/
def isBinary : Expr → Bool
  | binary .. => true
  | _ => false

/-- Whether an operand of `parent` is written in parentheses. -/
def operandNeedsParens (parent : BinaryOp) (side : Side) : Expr → Bool
  | binary inner .. =>
    if inner.precedence ≠ parent.precedence then decide (inner.precedence < parent.precedence)
    else
      match side with
      | .left => parent.isRightAssociative
      | .right => !parent.isRightAssociative
  | unary .. => decide (parent = .pow) && decide (side = .left)
  | e => e.isNegativeNumber && decide (parent = .pow) && decide (side = .left)

/-- Whether the body of a subquery is written in parentheses. -/
def bodyNeedsParens : Expr → Bool
  | binary .. | unary .. | subquery .. => true
  | selector s => (present s.offset).isSome || (present s.instant).isSome
  | e => e.isNegativeNumber

/-- An expression as an argument, where a string is quoted; `shown` is its own text. -/
def argument (e : Expr) (shown : List Char) : List Char :=
  match e with
  | text s => Quoted.quote s.toList
  | _ => shown

mutual

/-- The characters of a query. -/
def chars : Expr → List Char
  | number x => x.toQuery
  | text s => s.toList
  | selector s => s.chars
  | subquery body w => parenthesizedIf body.bodyNeedsParens body.chars ++ w.chars
  | unary op e => op.symbol.toList ++ parenthesizedIf e.isBinary e.chars
  | aggregation op e param g =>
    op.symbol.toList ++ g.chars ++
      parenthesized (paramChars param ++ argument e e.chars)
  | binary op l r m =>
    parenthesizedIf (operandNeedsParens op .left l) l.chars ++
      ' ' :: (op.symbol.toList ++ ' ' ::
        (m.chars ++ parenthesizedIf (operandNeedsParens op .right r) r.chars))
  | call f args => f.toList ++ parenthesized ([',', ' '].intercalate (argChars args))

/-- The parameter of an aggregation, with what divides it from the operand. -/
def paramChars : Option Expr → List Char
  | none => []
  | some e => argument e e.chars ++ [',', ' ']

/-- The texts of arguments, one by one. -/
def argChars : List Expr → List (List Char)
  | [] => []
  | e :: es => argument e e.chars :: argChars es

end

/-- The text of a query. -/
def render (e : Expr) : String :=
  String.ofList e.chars

end Expr

end MetricQuery
