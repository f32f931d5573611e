/-!
# Paths

A path names a place in a tree of files, from the working directory or from the root. It is kept as
the names between its slashes, with whether it started with a slash and whether it ended with one: a
slash at the end insists on a directory.
-/

set_option autoImplicit false

namespace MetricQuery

/-- A path by its names, as it is written. -/
structure Path where
  absolute : Bool
  parts : List String
  /-- Whether a slash stands at the end. -/
  slash : Bool
deriving DecidableEq, Repr

/-- A place in a tree, by the names that lead to it. The root of all places is a name of its own,
so the empty list is the working directory. A place outside it starts with one `..` for each level
above it. -/
abbrev Location := List String

namespace Location

/-- The root of all places. -/
def root : Location := ["/"]

/-- Whether a place is the working directory or lies above it. -/
def isAbove (place : Location) : Bool :=
  place.all fun part => decide (part = "..")

/-- The place that a name leads to. Nothing lies above the root. -/
def step (place : Location) (part : String) : Location :=
  if part = "." then place
  else if part = ".." then
    if place = root then place
    else if place.isAbove then place ++ [".."]
    else place.dropLast
  else place ++ [part]

end Location

namespace Path

/-- The most bytes that one name may have. -/
def nameLimit : Nat := 255

/-- The most bytes that the text of a path may have. -/
def textLimit : Nat := 4095

/-- The parts between slashes, empty ones included. -/
def splitSlashes : List Char → List (List Char)
  | [] => [[]]
  | c :: text =>
    if c = '/' then [] :: splitSlashes text
    else
      match splitSlashes text with
      | [] => [[c]]
      | part :: parts => (c :: part) :: parts

/-- The path that a text spells. Empty names count for nothing. -/
def ofText (text : String) : Path where
  absolute := decide (text.toList.head? = some '/')
  parts := ((splitSlashes text.toList).filter fun part => decide (part ≠ [])).map String.ofList
  slash := decide (text.toList.getLast? = some '/')

/-- Where a path starts. -/
def start (path : Path) : Location :=
  if path.absolute then Location.root else []

/-- The place that a path leads to when all directories on the way exist. -/
def location (path : Path) : Location :=
  path.parts.foldl Location.step path.start

/-- Whether a part between slashes stays where it is. -/
def isIdle (part : List Char) : Bool :=
  decide (part = [] ∨ part = ['.'])

/-- The text of the directory that a path names something in; it is empty when that directory is the
one the path starts at. -/
def directoryText (text : String) : String :=
  let parts := (splitSlashes text.toList).reverse.dropWhile isIdle
  "/".intercalate (((parts.drop 1).dropWhile isIdle).reverse.map String.ofList)

end Path

end MetricQuery
