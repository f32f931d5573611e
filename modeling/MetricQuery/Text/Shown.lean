import MetricQuery.Text.Hidden

/-!
# Texts shown in messages

A message shows a text between double quotes such that a reader can tell every character: the
double quote, the backslash and the usual control characters have an escape with a backslash, and
all other characters that do not show are spelled as their code point, `\u{…}`.
-/

set_option autoImplicit false

namespace MetricQuery.Text

/-- One character as a message shows it. -/
def showChar (c : Char) : List Char :=
  if c.toNat = 0 then ['\\', '0']
  else if c = '\t' then ['\\', 't']
  else if c = '\r' then ['\\', 'r']
  else if c = '\n' then ['\\', 'n']
  else if c = '"' then ['\\', '"']
  else if c = '\\' then ['\\', '\\']
  else if isHidden c then
    ['\\', 'u', '{'] ++ Nat.toDigits 16 c.toNat ++ ['}']
  else [c]

/-- A text as a message shows it. -/
def shown (s : List Char) : List Char :=
  '"' :: (s.flatMap showChar ++ ['"'])

end MetricQuery.Text
