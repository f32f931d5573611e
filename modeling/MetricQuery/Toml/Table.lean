import MetricQuery.Toml.Basic
import MetricQuery.Toml.Key

/-!
# Building tables

The lines of a document add to its tables. An entry is written once. A table gets one header, and
may get it after it was implied by the headers of its subtables. Entries under dotted keys add to
tables that dotted keys have made; they reach through tables that other lines made, but not into
one that has a header. A path through tables that share a header leads to the last of them.
-/

set_option autoImplicit false

namespace MetricQuery.Toml

namespace Entries

/-- Writes an entry over the one of its name, or behind all others. -/
def put (name : String) (value : Value) : Entries → Entries
  | [] => [(name, value)]
  | (key, old) :: entries =>
    if key = name then (key, value) :: entries else (key, old) :: put name value entries

/-- Adds an entry that must be new. -/
def add (name : String) (value : Value) (entries : Entries) : Option Entries :=
  if (entries.lookup name).isSome then none else some (entries ++ [(name, value)])

end Entries

/-- A change to the entries of a table that came about in a known way. -/
abbrev Change := Origin → Entries → Option Entries

/-- Changes the table at the end of a path. Tables that are missing on the way are made; `dotted`
tells whether the path is that of a dotted key or of a header. -/
def descend (dotted : Bool) (change : Change) : List String → Change
  | [], origin, entries => change origin entries
  | name :: path, _, entries =>
    match entries.lookup name with
    | none => do
      let origin := if dotted then Origin.dotted else Origin.implied
      let inner ← descend dotted change path origin []
      return entries ++ [(name, .table origin inner)]
    | some (.table origin inner) =>
      if origin = .inline ∨ (dotted ∧ origin = .header) then none
      else do
        let inner ← descend dotted change path origin inner
        return Entries.put name (.table origin inner) entries
    | some (.tables elements) =>
      match elements.reverse with
      | .table origin inner :: before => do
        let inner ← descend dotted change path origin inner
        return Entries.put name (.tables (before.reverse ++ [.table origin inner])) entries
      | _ => none
    | some _ => none

/-- Adds an entry under its key. The table that takes the entry is one of dotted keys exactly when
the key has a dot. -/
def addEntry (key : Key) (value : Value) : Change :=
  descend true
    (fun origin entries =>
      if decide (origin = .dotted) = key.path.isEmpty then none
      else Entries.add key.name value entries)
    key.path

/-- A header in brackets: the table is new, or was only implied so far. -/
def openTable (key : Key) (entries : Entries) : Option Entries :=
  descend false
    (fun _ entries =>
      match entries.lookup key.name with
      | none => some (entries ++ [(key.name, .table .header [])])
      | some (.table .implied inner) => some (Entries.put key.name (.table .header inner) entries)
      | some _ => none)
    key.path .header entries

/-- A header in double brackets: one more table among those that share it. -/
def openElement (key : Key) (entries : Entries) : Option Entries :=
  descend false
    (fun _ entries =>
      match entries.lookup key.name with
      | none => some (entries ++ [(key.name, .tables [.table .header []])])
      | some (.tables elements) =>
        some (Entries.put key.name (.tables (elements ++ [.table .header []])) entries)
      | some _ => none)
    key.path .header entries

end MetricQuery.Toml
