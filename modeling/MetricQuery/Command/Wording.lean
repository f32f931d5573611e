import MetricQuery.Command.Arguments

/-!
# Wording

What is found in the arguments is told in the words of the reader of arguments, and what is found in a
configuration in those of the reader of documents. A run takes these words from outside, so all that
is said about runs holds whatever they are. `Wording.customary` has the words that the reader of
arguments is known for, and of the help only the line of usage.
-/

set_option autoImplicit false

namespace MetricQuery

/-- The words for what readers find. -/
structure Wording where
  /-- The help on a command or on the program. -/
  help : Option String → String
  /-- The line that tells what is wrong with the arguments. -/
  misuse : Misuse → String
  /-- What is wrong with a text that holds no settings. -/
  defect : String → String

namespace Wording

/-- An option with the place of its value. -/
def optionShown (field : Field) : String :=
  let place :=
    match field with
    | .format => "FORMAT"
    | .config => "CONFIG"
    | .label => "LABELS"
    | .range => "RANGE"
    | .offset => "OFFSET"
    | .instant => "AT"
    | .output => "OUTPUT"
  "--" ++ field.longName ++ " <" ++ place ++ ">"

/-- The line for an option without a value. -/
def valueRequired (field : Field) : String :=
  "error: a value is required for '" ++ optionShown field ++ "' but none was supplied"

/-- The line for a mistake. The empty text is refused as a path as if it were not there. -/
def mistake : Misuse → String
  | .unexpected arg => "error: unexpected argument '" ++ arg ++ "' found"
  | .unknownCommand word => "error: unrecognized subcommand '" ++ word ++ "'"
  | .missingCommand => "error: 'promql' requires a subcommand but one was not provided"
  | .missingOperand _ => "error: the following required arguments were not provided:"
  | .missingValue field => valueRequired field
  | .badValue .format value =>
    "error: invalid value '" ++ value ++ "' for '" ++ optionShown .format ++ "': " ++
      OutputFormat.unknown value
  | .badValue field _ => valueRequired field
  | .needlessValue option value =>
    "error: unexpected value '" ++ value ++ "' for '" ++ option ++ "' found; no more were expected"
  | .repeated field =>
    "error: the argument '" ++ optionShown field ++ "' cannot be used multiple times"

/-- How the program or one of its commands is used. -/
def usage : Option String → String
  | some "render" => "Usage: promql render [OPTIONS] <INPUT>\n"
  | some "vector" => "Usage: promql vector [OPTIONS] <METRIC>\n"
  | some "demo" => "Usage: promql demo [OPTIONS]\n"
  | some "config" => "Usage: promql config [OPTIONS]\n"
  | some _ => "Usage: promql help [COMMAND]...\n"
  | none => "Usage: promql [OPTIONS] <COMMAND>\n"

/-- The line of usage for help, the customary line for a mistake, and a word for a defect. -/
def customary : Wording where
  help := usage
  misuse := mistake
  defect _ := "TOML parse error"

end Wording

end MetricQuery
