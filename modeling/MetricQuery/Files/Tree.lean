import MetricQuery.Association
import MetricQuery.Files.Path

/-!
# Trees of files

The files that a program can see, by the place at which they stand. A place is a directory when a
file lies below it, when a directory was made there, or when it is the working directory, one above
it, or the root. Reading and saving follow a path name by name: each name but the last must lead to
a directory. Saving makes the directories that are missing, and those that it made before a failure
stay.

The tree is simpler than a disk in three ways. Where the working directory lies below the root is
left open, so a path from the root and one from the working directory never name the same place.
There are no links, so a place has one name. And of all permissions there is only that of a single
place: one that is locked can be neither read nor written, while every directory can be searched and
added to.
-/

set_option autoImplicit false

namespace MetricQuery

/-- What a file or a variable holds. -/
inductive Content where
  | text (value : String)
  /-- Bytes that are no text. -/
  | binary (bytes : List UInt8)
deriving DecidableEq

namespace Content

/-- Bytes are a text when they are well formed UTF-8. -/
def ofBytes (bytes : ByteArray) : Content :=
  match String.fromUTF8? bytes with
  | some s => text s
  | none => binary bytes.toList

/-- The text, unless it is none. -/
def text? : Content → Option String
  | text s => some s
  | binary _ => none

end Content

/-- Why a file cannot be used. -/
inductive FileFault where
  | notFound | denied | alreadyExists | notDirectory | isDirectory | nameTooLong
  /-- A file that should be a text is none. -/
  | notText
deriving DecidableEq, Repr

/-- What the system says of a fault. -/
def FileFault.message : FileFault → String
  | notFound => "No such file or directory (os error 2)"
  | denied => "Permission denied (os error 13)"
  | alreadyExists => "File exists (os error 17)"
  | notDirectory => "Not a directory (os error 20)"
  | isDirectory => "Is a directory (os error 21)"
  | nameTooLong => "File name too long (os error 36)"
  | notText => "stream did not contain valid UTF-8"

/-- What stands at a place. -/
inductive Place where
  | absent
  | file (content : Content)
  | directory

/-- Files by their places, and what is known of directories and permissions. -/
structure FileTree where
  files : Association Location Content := []
  /-- Directories that stand by themselves. -/
  directories : List Location := []
  /-- Places where no file may be read or written. -/
  locked : List Location := []

namespace FileTree

/-- The tree with a file for each path. -/
def ofFiles (files : List (String × Content)) : FileTree where
  files := files.map fun entry => ((Path.ofText entry.1).location, entry.2)

/-- Whether a place is a directory, told by what stands at or below it. -/
def hasDirectory (tree : FileTree) (place : Location) : Bool :=
  place.isAbove || decide (place = Location.root) ||
    tree.files.any (fun entry => place.isPrefixOf entry.1) ||
    tree.directories.any (fun directory => place.isPrefixOf directory)

/-- What stands at a place. -/
def lookup (tree : FileTree) (place : Location) : Place :=
  match tree.files.lookup place with
  | some content => .file content
  | none => if tree.hasDirectory place then .directory else .absent

/-- A place must be a directory when a name is looked up in it. -/
def requireDirectory (tree : FileTree) (place : Location) : Except FileFault Unit :=
  match tree.lookup place with
  | .absent => .error .notFound
  | .file _ => .error .notDirectory
  | .directory => .ok ()

/-- The place that names lead to; all but the last lead to directories. -/
def walk (tree : FileTree) : Location → List String → Except FileFault Location
  | place, [] => .ok place
  | place, part :: parts => do
    tree.requireDirectory place
    if Path.nameLimit < part.utf8ByteSize then throw .nameTooLong
    tree.walk (place.step part) parts

/-- The path that a text names. The empty text names none. -/
def pathOf (text : String) : Except FileFault Path :=
  if text = "" then .error .notFound
  else if Path.textLimit < text.utf8ByteSize then .error .nameTooLong
  else .ok (Path.ofText text)

/-- What the file at a path holds. -/
def read (tree : FileTree) (text : String) : Except FileFault Content := do
  let path ← pathOf text
  let place ← tree.walk path.start path.parts
  match tree.lookup place with
  | .absent => throw .notFound
  | .file content =>
    if path.slash then throw .notDirectory
    else if place ∈ tree.locked then throw .denied
    else return content
  | .directory => throw .isDirectory

/-- The text that the file at a path holds. -/
def readText (tree : FileTree) (text : String) : Except FileFault String := do
  match ← tree.read text with
  | .text s => return s
  | .binary _ => throw .notText

/-- Makes one directory in a directory that exists. -/
def makeDirectory (tree : FileTree) (start : Location) (parts : List String) :
    Except FileFault FileTree := do
  let place ← tree.walk start parts
  match tree.lookup place with
  | .absent => return { tree with directories := place :: tree.directories }
  | _ => throw .alreadyExists

/-- Whether names lead to a directory. -/
def leadsToDirectory (tree : FileTree) (start : Location) (parts : List String) : Bool :=
  match tree.walk start parts with
  | .ok place =>
    match tree.lookup place with
    | .directory => true
    | _ => false
  | .error _ => false

/-- Makes a directory unless it is there already. -/
def ensureDirectory (tree : FileTree) (start : Location) (parts : List String) :
    Except FileFault FileTree :=
  match tree.makeDirectory start parts with
  | .ok tree => .ok tree
  | .error fault => if tree.leadsToDirectory start parts then .ok tree else .error fault

/-- What an operation of several steps leaves behind: the tree after the steps that were done, and
why the next one failed. -/
structure Progress where
  tree : FileTree
  fault : Option FileFault := none

namespace Progress

/-- One step, which leaves the tree as it is when it fails. -/
def step (tree : FileTree) : Except FileFault FileTree → Progress
  | .ok changed => ⟨changed, none⟩
  | .error fault => ⟨tree, some fault⟩

/-- Goes on unless something failed. -/
def andThen (progress : Progress) (next : FileTree → Progress) : Progress :=
  match progress.fault with
  | none => next progress.tree
  | some _ => progress

end Progress

/-- Makes a directory and those above it, unless they are there. The names are given from the last
to the first. -/
def makeChain (tree : FileTree) (start : Location) : List String → Progress
  | [] => ⟨tree, none⟩
  | part :: before =>
    match tree.ensureDirectory start (part :: before).reverse with
    | .error .notFound =>
      (tree.makeChain start before).andThen fun tree =>
        .step tree (tree.ensureDirectory start (part :: before).reverse)
    | result => .step tree result

/-- Makes the directory at a path and those above it. There is nothing to make for the empty text,
and names that stay where they are make none. -/
def makeDirectories (tree : FileTree) (text : String) : Progress :=
  if text = "" then ⟨tree, none⟩
  else
    match pathOf text with
    | .error fault => ⟨tree, some fault⟩
    | .ok path => tree.makeChain path.start (path.parts.filter fun part => decide (part ≠ ".")).reverse

/-- Writes a file over the one at its place, if there is one. -/
def put (tree : FileTree) (place : Location) (content : Content) : FileTree :=
  { tree with files := tree.files.put place content }

/-- The file at a place is the one written last; all others stay as they are. -/
@[simp]
theorem files_put (tree : FileTree) (place other : Location) (content : Content) :
    List.lookup other (tree.put place content).files =
      if other = place then some content else tree.files.lookup other :=
  Association.lookup_put tree.files place other content

/-- Writes the file at a path. No file is made at a path that insists on a directory. -/
def write (tree : FileTree) (text : String) (content : Content) : Except FileFault FileTree := do
  let path ← pathOf text
  if path.slash then
    tree.requireDirectory (← tree.walk path.start path.parts.dropLast)
    throw .isDirectory
  let place ← tree.walk path.start path.parts
  match tree.lookup place with
  | .directory => throw .isDirectory
  | _ => if place ∈ tree.locked then throw .denied else return tree.put place content

/-- Writes the file at a path and makes the directories above it. -/
def save (tree : FileTree) (text : String) (content : Content) : Progress :=
  (tree.makeDirectories (Path.directoryText text)).andThen fun tree =>
    .step tree (tree.write text content)

end FileTree

end MetricQuery
