import MetricQuery.Expr.Basic
import MetricQuery.Json.Writer
import MetricQuery.Text.Shown

/-!
# Faults in stored trees

A JSON text can be well formed and still be no tree. A `DataFault` is why, and `message` puts it
into words.
-/

set_option autoImplicit false

namespace MetricQuery

/-- What stands where something else was wanted. -/
inductive Found where
  | null
  | bool (value : Bool)
  | integer (value : Int)
  | float (value : Double)
  | string (value : String)
  | sequence
  | map

namespace Found

/-- What a value is found to be. -/
def of : Json → Found
  | .null => null
  | .bool b => bool b
  | .integer n => integer n
  | .float x => float x
  | .string s => string s
  | .array _ => sequence
  | .object _ => map

/-- A word in backticks. -/
def ticked (word : List Char) : List Char :=
  "`".toList ++ word ++ "`".toList

/-- The words for what is found. -/
def describe : Found → List Char
  | null => "null".toList
  | bool b => "boolean ".toList ++ ticked (if b then "true".toList else "false".toList)
  | integer n => "integer ".toList ++ ticked (Json.integerChars n)
  | float x => "floating point ".toList ++ ticked (Json.floatChars x)
  | string s => "string ".toList ++ Text.shown s.toList
  | sequence => "sequence".toList
  | map => "map".toList

end Found

/-- What was wanted. -/
inductive Wanted where
  | expression | tag | text | list | number | matcher | operator | nothing

/-- The words for what is wanted. -/
def Wanted.describe : Wanted → String
  | expression => "internally tagged enum Expr"
  | tag => "variant identifier"
  | text => "a string"
  | list => "a sequence"
  | number => "f64"
  | matcher => "struct LabelSelector"
  | operator => "string or map"
  | nothing => "unit"

/-- The nodes that can also be given as an array of their fields. -/
inductive Record where
  | matcher
  | node (kind : Kind)

namespace Record

/-- The name of a record in messages. -/
def name : Record → String
  | matcher => "LabelSelector"
  | node .number => "NumberLiteralExpr"
  | node .text => "StringLiteralExpr"
  | node .selector => "VectorExpr"
  | node .subquery => "SubqueryExpr"
  | node .unary => "UnaryExpr"
  | node .aggregation => "AggregationExpr"
  | node .binary => "BinaryExpr"
  | node .call => "FuncCallExpr"

/-- The number of fields. -/
def size : Record → Nat
  | matcher => 3
  | node .number => 1
  | node .text => 1
  | node .selector => 5
  | node .subquery => 5
  | node .unary => 2
  | node .aggregation => 5
  | node .binary => 7
  | node .call => 2

end Record

/-- Why a JSON value is no tree. -/
inductive DataFault where
  | wrongType (found : Found) (wanted : Wanted)
  /-- An operator given as an object that has not exactly one key. -/
  | notOneKey
  /-- A number as tag that is the place of no kind. -/
  | wrongIndex (index : Int)
  | unknownName (name : String) (choices : List String)
  | missingField (name : String)
  | repeatedField (name : String)
  /-- An array of fields that lacks a required one. -/
  | tooShort (present : Nat) (record : Record)
  /-- An array with more items than the node has fields. -/
  | tooLong (present : Nat) (record : Record)

namespace DataFault

/-- A number of elements. -/
def elements (n : Nat) : List Char :=
  digitsOf n ++ (if n = 1 then " element".toList else " elements".toList)

/-- The choices of a vocabulary. -/
def choiceList (choices : List String) : List Char :=
  match choices with
  | [] => "there are no variants".toList
  | [a] => "expected ".toList ++ Found.ticked a.toList
  | [a, b] => "expected ".toList ++ Found.ticked a.toList ++ " or ".toList ++ Found.ticked b.toList
  | many =>
    "expected one of ".toList ++
      [',', ' '].intercalate (many.map fun c => Found.ticked c.toList)

/-- What is said of a fault. -/
def chars : DataFault → List Char
  | wrongType found wanted =>
    "invalid type: ".toList ++ found.describe ++ ", expected ".toList ++ wanted.describe.toList
  | notOneKey => "invalid value: map, expected map with a single key".toList
  | wrongIndex n =>
    "invalid value: integer ".toList ++ Found.ticked (Json.integerChars n) ++
      ", expected variant index 0 <= i < 8".toList
  | unknownName name choices =>
    "unknown variant ".toList ++ Found.ticked name.toList ++ ", ".toList ++ choiceList choices
  | missingField name => "missing field ".toList ++ Found.ticked name.toList
  | repeatedField name => "duplicate field ".toList ++ Found.ticked name.toList
  | tooShort present record =>
    "invalid length ".toList ++ digitsOf present ++ ", expected struct ".toList ++
      record.name.toList ++ " with ".toList ++ elements record.size
  | tooLong present record =>
    "invalid length ".toList ++ digitsOf present ++ ", expected ".toList ++
      elements record.size ++ " in sequence".toList

/-- What is said of a fault, as a text. -/
def message (f : DataFault) : String :=
  String.ofList f.chars

end DataFault

end MetricQuery
