import MetricQuery.Settings.Basic
import MetricQuery.Toml.Document

/-!
# Settings from a document

A document holds the settings in two records, `logging` and `output`. A record is a table, or an
array of its fields in order; what is not given has its default, and what is not known is passed
over. A value of the wrong type makes the whole document unfit.
-/

set_option autoImplicit false

namespace MetricQuery.Settings

open Toml (Value Entries)

/-- A field of a record, by its name or its position; nothing when the value is no record. A moment
counts as a record without fields. -/
def field? (record : Value) (position : Nat) (name : String) : Option (Option Value) :=
  match record with
  | .table _ entries => some (entries.lookup name)
  | .array items => some items[position]?
  | .tables elements => some elements[position]?
  | .moment => some none
  | .string _ => none
  | .scalar => none

/-- The text of a value that is one. -/
def string? : Value → Option String
  | .string s => some s
  | _ => none

/-- Whether a value is a bracket with nothing in it. -/
def isEmpty : Value → Bool
  | .table _ [] => true
  | .array [] => true
  | .tables [] => true
  | _ => false

/-- An output format is given by its exact name, or as a table with the name as its only key and
nothing behind it. -/
def format? : Value → Option OutputFormat
  | .string name => Vocabulary.ofName? name
  | .table _ [(name, value)] => if isEmpty value then Vocabulary.ofName? name else none
  | _ => none

/-- The value of a field, or its default. -/
def fieldOr {α : Type} (default : α) (decode : Value → Option α) : Option Value → Option α
  | some value => decode value
  | none => some default

/-- Settings with the fields of a record for logging. -/
def withLogging (s : Settings) (record : Value) : Option Settings := do
  let level ← fieldOr s.level string? (← field? record 0 "level")
  let logFormat ← fieldOr s.logFormat string? (← field? record 1 "format")
  return { s with level, logFormat }

/-- Settings with the fields of a record for output. -/
def withOutput (s : Settings) (record : Value) : Option Settings := do
  let output ← fieldOr s.output format? (← field? record 0 "format")
  return { s with output }

/-- The settings that the entries of a document give. -/
def ofEntries? (entries : Entries) : Option Settings := do
  let s ← fieldOr {} (withLogging {}) (entries.lookup "logging")
  fieldOr s (withOutput s) (entries.lookup "output")

/-- The settings of a document. -/
def parse? (text : String) : Option Settings := do
  ofEntries? (← Toml.parse? text.toList)

end MetricQuery.Settings
