import MetricQuery.Number.Binary64

/-!
# JSON values

The values of a JSON text. Members of an object keep the order in which they were written, and a
key may occur twice: what that means is for the reader of the object to say. Whole numbers that fit
a 64-bit word are kept apart from all other numbers.
-/

set_option autoImplicit false

namespace MetricQuery

/-- A value. Of numbers it is known whether they were written as whole ones. -/
inductive Json where
  | null
  | bool (value : Bool)
  | integer (value : Int)
  | float (value : Double)
  | string (value : String)
  | array (items : List Json)
  | object (members : List (String × Json))

namespace Json

mutual

/-- How deep a value nests: one for a scalar, one more for each bracket around it. -/
def height : Json → Nat
  | array items => heightItems items + 1
  | object members => heightMembers members + 1
  | _ => 1

/-- The greatest height of items. -/
def heightItems : List Json → Nat
  | [] => 0
  | j :: js => max j.height (heightItems js)

/-- The greatest height of members. -/
def heightMembers : List (String × Json) → Nat
  | [] => 0
  | (_, j) :: js => max j.height (heightMembers js)

end

end Json

end MetricQuery
