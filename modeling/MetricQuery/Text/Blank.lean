import MetricQuery.Text.CharSet

/-!
# White space

The characters with the Unicode property `White_Space`, and cutting them off both ends of a text.
-/

set_option autoImplicit false

namespace MetricQuery.Text

/-- All white space. -/
def blanks : CharSet :=
  [(0x9, 0xd), (0x20, 0x20), (0x85, 0x85), (0xa0, 0xa0), (0x1680, 0x1680), (0x2000, 0x200a),
    (0x2028, 0x2029), (0x202f, 0x202f), (0x205f, 0x205f), (0x3000, 0x3000)]

/-- Whether a character is white space. -/
def isBlank (c : Char) : Bool :=
  blanks.contains c

/-- The text without the white space before it. -/
def trimLeft (s : List Char) : List Char :=
  s.dropWhile isBlank

/-- The text without the white space at its ends. -/
def trim (s : List Char) : List Char :=
  (trimLeft (trimLeft s).reverse).reverse

end MetricQuery.Text
