import MetricQuery.Command.Run

/-!
# The program

The outer layer: it looks at the files, the input and the variables that a command line can depend
on, lets `plan` decide, and carries the plan out.
-/

set_option autoImplicit false

namespace MetricQuery.Program

/-- Adds what stands at a path to a tree; nothing when the path leads nowhere. -/
def look (tree : FileTree) (path : String) : IO FileTree := do
  let place := (Path.ofText path).location
  try
    let bytes ← IO.FS.readBinFile path
    return tree.put place (.ofBytes bytes)
  catch
    | .inappropriateType .. => return { tree with directories := place :: tree.directories }
    | .permissionDenied .. =>
      return { tree.put place (.text "") with locked := place :: tree.locked }
    | _ => return tree

/-- Adds what stands at a path and on the way to it. -/
def lookAlong (tree : FileTree) (text : String) : IO FileTree := do
  let path := Path.ofText text
  let start := if path.absolute then "/" else ""
  (List.range path.parts.length).foldlM (fun tree n =>
    look tree (start ++ "/".intercalate (path.parts.take (n + 1)))) tree

/-- The directory for the user's own configuration. -/
def configHome : IO (Option String) := do
  match ← IO.getEnv "XDG_CONFIG_HOME" with
  | some directory => if directory.startsWith "/" then return some directory
  | none => pure ()
  return (← IO.getEnv "HOME").map fun directory => directory ++ "/.config"

/-- The variables that override settings. -/
def environment : IO Environment := do
  let names := [Environment.levelName, Environment.logFormatName, Environment.outputName]
  let texts ← names.filterMapM fun name => do
    return (← IO.getEnv name).map fun value => (name, value)
  return .ofLookup fun name => List.lookup name texts

/-- What a command line can depend on. -/
def host (args : List String) : IO Host := do
  let home ← configHome
  let environment ← environment
  match Invocation.parse args with
  | .error _ => return { environment, home }
  | .ok invocation =>
    let files ← (invocation.consulted home).foldlM lookAlong {}
    if invocation.readsInput then
      let bytes ← (← IO.getStdin).readBinToEnd
      return { files, input := .ofBytes bytes, environment, home }
    else return { files, environment, home }

/-- Says what went wrong and gives the exit code for it. -/
def fail (message : String) : IO UInt32 := do
  IO.eprintln ("Error: " ++ message)
  return 1

/-- Carries a plan out. What the files show beforehand says why a file cannot be written. -/
def carryOut (files : FileTree) (plan : Plan) : IO UInt32 :=
  match plan with
  | .print text => do
    IO.print text
    return 0
  | .save path text => do
    try
      let directory := Path.directoryText path
      if directory ≠ "" then IO.FS.createDirAll directory
      IO.FS.writeFile path text
      IO.print (savedText path)
      return 0
    catch e => fail (((plan.outcome files).error).getD (toString e))
  | .fail message => fail message
  | .refuse line => do
    IO.eprintln (line.getD (Wording.customary.help none))
    return 2

end MetricQuery.Program

/-- Runs a command line and returns its exit code. -/
def main (args : List String) : IO UInt32 := do
  let host ← MetricQuery.Program.host args
  MetricQuery.Program.carryOut host.files (MetricQuery.plan host args)
