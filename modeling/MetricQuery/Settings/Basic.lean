import MetricQuery.Files.Tree
import MetricQuery.Settings.OutputFormat

/-!
# Settings

What can be configured: how much and in which form to log, and how to print expressions. Variables
of the environment override single settings; one that is no text is passed over, and so is one for
the output format that names no format.
-/

set_option autoImplicit false

namespace MetricQuery

/-- Level and form of logs, and the format of expressions. -/
structure Settings where
  level : String := "info"
  logFormat : String := "pretty"
  output : OutputFormat := .text
deriving DecidableEq, Repr

/-- The variables that a program can see, by their names. A value need not be a text. -/
structure Environment where
  lookup : String → Option Content := fun _ => none

namespace Environment

/-- The variable for the level of logs. -/
def levelName : String := "PROMQL_BUILDER_LOG_LEVEL"

/-- The variable for the form of logs. -/
def logFormatName : String := "PROMQL_BUILDER_LOG_FORMAT"

/-- The variable for the format of expressions. -/
def outputName : String := "PROMQL_BUILDER_OUTPUT_FORMAT"

/-- Variables that are all texts. -/
def ofLookup (lookup : String → Option String) : Environment where
  lookup name := (lookup name).map .text

/-- The text of a variable. One that is set to anything else counts as not set. -/
def text? (env : Environment) (name : String) : Option String :=
  (env.lookup name).bind Content.text?

end Environment

namespace Settings

/-- The settings with those that the environment overrides. -/
def override (s : Settings) (env : Environment) : Settings where
  level := (env.text? Environment.levelName).getD s.level
  logFormat := (env.text? Environment.logFormatName).getD s.logFormat
  output := ((env.text? Environment.outputName).bind OutputFormat.ofText?).getD s.output

/-- A file with all settings at their defaults, for a user to start from. -/
def template : String :=
  "# promql-builder Configuration\n" ++
  "#\n" ++
  "# Environment variables override these settings:\n" ++
  "# - PROMQL_BUILDER_LOG_LEVEL\n" ++
  "# - PROMQL_BUILDER_LOG_FORMAT\n" ++
  "# - PROMQL_BUILDER_OUTPUT_FORMAT\n" ++
  "\n" ++
  "[logging]\n" ++
  "# Log level: trace, debug, info, warn, error\n" ++
  "level = \"info\"\n" ++
  "\n" ++
  "# Log format: pretty (for development) or json (for production)\n" ++
  "format = \"pretty\"\n" ++
  "\n" ++
  "[output]\n" ++
  "# How expressions are printed: text (PromQL) or json (expression tree)\n" ++
  "format = \"text\"\n"

end Settings

end MetricQuery
