import MetricQuery.Operator
import MetricQuery.Text.Blank
import MetricQuery.Text.Lower

/-!
# Output formats

How expressions are printed. A format is asked for by its name; white space around the name and
the case of its letters do not matter.
-/

set_option autoImplicit false

namespace MetricQuery

/-- How expressions are printed. -/
inductive OutputFormat where
  /-- As a query. -/
  | text
  /-- As a stored tree. -/
  | json
deriving DecidableEq, Repr

namespace OutputFormat

/-- The name by which a format is asked for. -/
def name : OutputFormat → String
  | text => "text"
  | json => "json"

end OutputFormat

instance : Vocabulary OutputFormat where
  all := [.text, .json]
  name := OutputFormat.name

namespace OutputFormat

/-- What is compared with the names. -/
def plainName (text : String) : String :=
  String.ofList (Text.lower (Text.trim text.toList))

/-- The format that a text names. -/
def ofText? (text : String) : Option OutputFormat :=
  Vocabulary.ofName? (plainName text)

/-- The complaint about a text that names no format. -/
def unknown (text : String) : String :=
  "unknown output format '" ++ plainName text ++ "', expected text or json"

end OutputFormat

end MetricQuery
