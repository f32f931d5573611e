/-!
# Quoted strings of query text

A string inside a query stands between double quotes. The quote and the backslash are written
with a backslash before them, and so are the three control characters that would break a line:
newline, carriage return and tab. All other characters stand for themselves.
-/

set_option autoImplicit false

namespace MetricQuery.Quoted

/-- One character as it stands between the quotes. -/
def escape (c : Char) : List Char :=
  if c = '"' then ['\\', '"']
  else if c = '\\' then ['\\', '\\']
  else if c = '\n' then ['\\', 'n']
  else if c = '\r' then ['\\', 'r']
  else if c = '\t' then ['\\', 't']
  else [c]

/-- The characters of a string as they stand between the quotes. -/
def body (s : List Char) : List Char :=
  s.flatMap escape

/-- A string in its quotes. -/
def quote (s : List Char) : List Char :=
  '"' :: (body s ++ ['"'])

/-- The body of a quoted text is written one character at a time. -/
theorem body_cons (c : Char) (s : List Char) : body (c :: s) = escape c ++ body s := rfl

end MetricQuery.Quoted
