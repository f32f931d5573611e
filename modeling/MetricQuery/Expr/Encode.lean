import MetricQuery.Expr.Basic
import MetricQuery.Json.Writer

/-!
# Stored trees

The JSON value of a tree: an object with the kind under `type`, then the fields of the node in a
fixed order. Matchers and arguments are always written; modifiers that are not given and empty
lists of labels are left out. An empty modifier is written as an empty string, so that it stays
apart from one that is not given.
-/

set_option autoImplicit false

namespace MetricQuery

/-- A value of a vocabulary, by its name. -/
def encodeName {α : Type} [Vocabulary α] (a : α) : Json :=
  .string (Vocabulary.name a)

/-- A member for a value that is given. -/
def optionalMember {α : Type} (key : String) (encode : α → Json) : Option α → List (String × Json)
  | some a => [(key, encode a)]
  | none => []

/-- A text that is left out when it is not there. -/
def textMember (key : String) (value : Option String) : List (String × Json) :=
  optionalMember key .string value

/-- A member for a list of labels that is not empty. -/
def labelsMember (key : String) : List String → List (String × Json)
  | [] => []
  | labels => [(key, .array (labels.map .string))]

/-- A matcher as a value. -/
def Matcher.encode (m : Matcher) : Json :=
  .object [("name", .string m.name), ("value", .string m.value), ("operator", encodeName m.op)]

/-- The members of a selector. -/
def Selector.members (s : Selector) : List (String × Json) :=
  [("metric", .string s.metric), ("labels", .array (s.matchers.map Matcher.encode))] ++
    textMember "offset" s.offset ++ textMember "at" s.instant ++ textMember "range" s.range

/-- The members of a window. -/
def Window.members (w : Window) : List (String × Json) :=
  textMember "offset" w.offset ++ textMember "at" w.instant ++ textMember "range" w.range ++
    textMember "resolution" w.resolution

/-- The members of a grouping. -/
def Grouping.members (g : Grouping) : List (String × Json) :=
  labelsMember "by" g.keep ++ labelsMember "without" g.drop

/-- The members of a matching. -/
def Matching.members (m : Matching) : List (String × Json) :=
  optionalMember "matchType" encodeName m.scope ++ labelsMember "matchLabels" m.labels ++
    optionalMember "groupModifier" encodeName m.side ++ labelsMember "groupLabels" m.carried

/-- A number, or `null` where JSON has none. -/
def encodeNumber (x : Double) : Json :=
  if x.isFinite then .float x else .null

namespace Expr

mutual

/-- The JSON value of a tree. -/
def encode : Expr → Json
  | number x => .object [("type", encodeName Kind.number), ("value", encodeNumber x)]
  | text s => .object [("type", encodeName Kind.text), ("value", .string s)]
  | selector s => .object (("type", encodeName Kind.selector) :: s.members)
  | subquery body w =>
    .object (("type", encodeName Kind.subquery) :: ("expr", body.encode) :: w.members)
  | unary op e =>
    .object [("type", encodeName Kind.unary), ("op", encodeName op), ("expr", e.encode)]
  | aggregation op e param g =>
    .object ([("type", encodeName Kind.aggregation), ("op", encodeName op), ("expr", e.encode)] ++
      encodeParam param ++ g.members)
  | binary op l r m =>
    .object ([("type", encodeName Kind.binary), ("op", encodeName op), ("left", l.encode),
      ("right", r.encode)] ++ m.members)
  | call f args =>
    .object [("type", encodeName Kind.call), ("function", .string f), ("args", .array (encodeArgs args))]

/-- The member for a parameter, if there is one. -/
def encodeParam : Option Expr → List (String × Json)
  | none => []
  | some e => [("param", e.encode)]

/-- Arguments as values. -/
def encodeArgs : List Expr → List Json
  | [] => []
  | e :: es => e.encode :: encodeArgs es

end

/-- The text under which a tree is stored. -/
def toJson (e : Expr) : String :=
  String.ofList e.encode.write

end Expr

end MetricQuery
