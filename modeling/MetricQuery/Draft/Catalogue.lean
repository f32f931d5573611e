import MetricQuery.Draft.Form

/-!
# The catalogue of short words

Every form that a query commonly needs has a short word: `rate`, `sum`, `gt`. An entry of the
catalogue tells which form a word stands for and what its arguments are, in order. The functions of
the calendar have two words each, since without an argument they speak of the current time.
-/

set_option autoImplicit false

namespace MetricQuery

/-- A word, the form that it stands for and the arguments that it takes. -/
structure Entry where
  word : String
  form : Form
  parameters : List Parameter

namespace Catalogue

/-- An entry for a function that is called by its own name. -/
def function (name : FunctionName) (parameters : List Parameter) : Entry :=
  ⟨name, .named name, parameters⟩

/-- Literals, selectors and subqueries. -/
def basics : List Entry :=
  [⟨"n", .number, [.number]⟩, ⟨"s", .text, [.text]⟩, ⟨"vector", .selector, [.text]⟩,
    ⟨"subquery", .subquery, [.operand]⟩]

/-- Signed expressions. -/
def signs : List Entry :=
  [⟨"neg", .unary .minus, [.operand]⟩, ⟨"id", .unary .plus, [.operand]⟩]

/-- Aggregations without a parameter. -/
def plainAggregators : List Aggregator :=
  [.sum, .min, .max, .avg, .group, .stddev, .stdvar, .count]

/-- Aggregations with a number as parameter. -/
def countedAggregators : List Aggregator :=
  [.quantile, .bottomk, .topk, .limitk, .limitRatio]

/-- Aggregations, each by the name of its operator. -/
def aggregations : List Entry :=
  (plainAggregators.map fun op => ⟨op.symbol, .aggregation op, [.operand]⟩) ++
    (countedAggregators.map fun op => ⟨op.symbol, .aggregation op, [.number, .operand]⟩) ++
    [⟨Aggregator.countValues.symbol, .aggregation .countValues, [.text, .operand]⟩]

/-- The word of a binary operator. -/
def operatorWord : BinaryOp → String
  | .add => "add"
  | .sub => "sub"
  | .mul => "mul"
  | .div => "div"
  | .mod => "modulo"
  | .pow => "pow"
  | .equal => "eq"
  | .notEqual => "neq"
  | .greater => "gt"
  | .less => "lt"
  | .greaterEqual => "gte"
  | .lessEqual => "lte"
  | .and => "and"
  | .or => "or"
  | .excluding => "unless"
  | .atan2 => "atan2"

/-- Binary operations, each by a word for its operator. -/
def operations : List Entry :=
  (Vocabulary.all : List BinaryOp).map fun op => ⟨operatorWord op, .binary op, [.operand, .operand]⟩

/-- Functions of one vector. -/
def vectorFunctions : List FunctionName :=
  functionNames ["abs", "absent", "absent_over_time", "ceil", "changes", "delta", "deriv", "exp",
    "floor", "histogram_avg", "histogram_count", "histogram_sum", "histogram_stddev",
    "histogram_stdvar",
    "idelta", "increase", "irate", "ln", "log2", "log10", "rate", "resets", "round", "scalar", "sgn",
    "sort", "sort_desc", "sqrt", "timestamp",
    "avg_over_time", "min_over_time", "max_over_time", "sum_over_time", "count_over_time",
    "stddev_over_time", "stdvar_over_time", "last_over_time", "present_over_time",
    "acos", "acosh", "asin", "asinh", "atan", "atanh", "cos", "cosh", "sin", "sinh", "tan", "tanh",
    "deg", "rad"]

/-- Parts of a date: of the current time, or of the times in a vector. -/
def calendarFunctions : List FunctionName :=
  functionNames ["day_of_month", "day_of_week", "day_of_year", "days_in_month", "hour", "minute",
    "month", "year"]

/-- Functions of no argument. -/
def constantFunctions : List FunctionName :=
  functionNames ["time", "pi"]

/-- Functions that take numbers or strings as well. -/
def otherFunctions : List Entry :=
  [function ⟨"clamp", by decide⟩ [.operand, .number, .number],
    function ⟨"clamp_max", by decide⟩ [.operand, .number],
    function ⟨"clamp_min", by decide⟩ [.operand, .number],
    function ⟨"predict_linear", by decide⟩ [.operand, .number],
    ⟨"round_to", .named ⟨"round", by decide⟩, [.operand, .number]⟩,
    function ⟨"histogram_fraction", by decide⟩ [.number, .number, .operand],
    function ⟨"histogram_quantile", by decide⟩ [.number, .operand],
    function ⟨"quantile_over_time", by decide⟩ [.number, .operand],
    function ⟨"label_join", by decide⟩ [.operand, .text, .text, .texts],
    function ⟨"label_replace", by decide⟩ [.operand, .text, .text, .text, .text],
    ⟨"vect", .named ⟨"vector", by decide⟩, [.number]⟩]

/-- Calls of all functions. -/
def functions : List Entry :=
  (vectorFunctions.map fun name => function name [.operand]) ++
    (calendarFunctions.map fun name => ⟨name.1 ++ "_for", .named name, [.operand]⟩) ++
    ((calendarFunctions ++ constantFunctions).map fun name => function name []) ++ otherFunctions

/-- All entries. -/
def entries : List Entry :=
  basics ++ signs ++ aggregations ++ operations ++ functions

/-- The entry of a word. -/
def find? (word : String) : Option Entry :=
  entries.find? fun entry => decide (entry.word = word)

end Catalogue

end MetricQuery
