/-!
# TOML values

The values of a TOML document. Settings are strings in tables, so of numbers and truth values only
their presence is kept, once they are known to be well formed.

A table remembers how it came about, because that decides whether a later line may add to it.
-/

set_option autoImplicit false

namespace MetricQuery.Toml

/-- How a table came about. -/
inductive Origin where
  /-- The document itself, or a table with a header of its own. -/
  | header
  /-- It stands on the way to a table with a header. -/
  | implied
  /-- It stands on the way of a dotted key. -/
  | dotted
  /-- It was written in braces, and is complete. -/
  | inline
deriving DecidableEq, Repr

/-- A value in a document. -/
inductive Value where
  | string (value : String)
  /-- A number or a truth value. -/
  | scalar
  /-- A date, a time or both. -/
  | moment
  | array (items : List Value)
  | table (origin : Origin) (entries : List (String × Value))
  /-- Tables that share a header in double brackets. -/
  | tables (elements : List Value)

/-- The entries of a table, in the order in which they were written. -/
abbrev Entries := List (String × Value)

end MetricQuery.Toml
