import MetricQuery.Command.Arguments
import MetricQuery.Command.Demo
import MetricQuery.Command.Label
import MetricQuery.Command.Wording
import MetricQuery.Expr.Encode
import MetricQuery.Expr.Load
import MetricQuery.Expr.Render
import MetricQuery.Settings.Load

/-!
# Running a command line

A run sees its host: files, standard input, the environment, and the words for what readers find. From
them and the arguments it makes a plan, which is all that it is going to do: print something, write
one file, or fail. Nothing is printed or written before the plan is made, and a file that cannot be
written is the last thing that can go wrong, so a run that fails has printed nothing and leaves what
every file holds.
-/

set_option autoImplicit false

namespace MetricQuery

/-- What a run can see. -/
structure Host where
  files : FileTree := {}
  input : Content := .text ""
  environment : Environment := {}
  /-- The directory for the user's own configuration. -/
  home : Option String := none
  wording : Wording := .customary

/-- What a run is going to do. -/
inductive Plan where
  | print (text : String)
  /-- Write a file, and say so. -/
  | save (path : String) (text : String)
  | fail (message : String)
  /-- The arguments are wrong, as the line tells. Without any arguments there is no such line. -/
  | refuse (line : Option String)
deriving DecidableEq, Repr

/-- What is printed for the version. -/
def versionText : String := "promql 0.1.0\n"

/-- An expression as it is printed, with the end of its line. -/
def printed (format : OutputFormat) (e : Expr) : String :=
  match format with
  | .text => e.render ++ "\n"
  | .json => e.toJson ++ "\n"

/-- An example as it is printed. -/
def printedExample (format : OutputFormat) (title : String) (e : Expr) : String :=
  match format with
  | .text => "# " ++ title ++ "\n" ++ e.render ++ "\n\n"
  | .json => e.toJson ++ "\n"

namespace Request

/-- The text of an input; a hyphen stands for standard input. -/
def readInput (host : Host) (input : String) : Except String String :=
  if input = "-" then
    match host.input with
    | .text s => .ok s
    | .binary _ => .error "Failed to read stdin"
  else
    match host.files.readText input with
    | .ok s => .ok s
    | .error _ => .error ("Failed to read " ++ input)

/-- The matchers of a list of arguments, from first to last. -/
def matchers : List String → Except String (List Matcher)
  | [] => .ok []
  | label :: labels =>
    match Matcher.ofArgument label.toList with
    | .error fault => .error (fault.message label)
    | .ok m => do return m :: (← matchers labels)

/-- The selector of a command line. -/
def selector (metric : String) (labels : List String) (range offset instant : Option String) :
    Except String Selector :=
  match required metric .emptyMetric with
  | .error violation => .error violation.message
  | .ok metric => do return ⟨metric, ← matchers labels, offset, instant, range⟩

/-- What a request comes to, with expressions printed in the given format. -/
def plan (host : Host) (format : OutputFormat) : Request → Except String Plan
  | .render input => do
    let text ← readInput host input
    match Expr.load text.toList with
    | .ok e => return .print (printed format e)
    | .error _ => throw ("Invalid expression in " ++ input)
  | .vector metric labels range offset instant => do
    let s ← selector metric labels range offset instant
    return .print (printed format (.selector s))
  | .demo =>
    .ok (.print (String.join (Demo.queries.map fun entry => printedExample format entry.1 entry.2)))
  | .config none => .ok (.print Settings.template)
  | .config (some path) => .ok (.save path Settings.template)

end Request

/-- The plan of an invocation. The settings are found before the request is looked at. -/
def Invocation.plan (host : Host) (invocation : Invocation) : Plan :=
  match Settings.resolve host.files host.home host.environment invocation.config with
  | .error fault => .fail (fault.report host.files host.wording.defect)
  | .ok settings =>
    match invocation.request.plan host (invocation.format.getD settings.output) with
    | .ok plan => plan
    | .error message => .fail message

/-- The paths that an invocation depends on: those of settings, of its input, and of the file that it
writes. -/
def Invocation.consulted (home : Option String) (invocation : Invocation) : List String :=
  let settings :=
    match invocation.config with
    | some path => [path]
    | none => Settings.usualPlaces home
  match invocation.request with
  | .render input => if input = "-" then settings else settings ++ [input]
  | .config (some path) => settings ++ [path]
  | _ => settings

/-- Whether an invocation reads standard input. -/
def Invocation.readsInput (invocation : Invocation) : Bool :=
  decide (invocation.request = .render "-")

/-- What is done about a command line that is not carried out. -/
def Refusal.plan (wording : Wording) : Refusal → Plan
  | .help command => .print (wording.help command)
  | .version => .print versionText
  | .empty => .refuse none
  | .misuse fault => .refuse (some (wording.misuse fault))

/-- The plan of a command line. -/
def plan (host : Host) (args : List String) : Plan :=
  match Invocation.parse args with
  | .ok invocation => invocation.plan host
  | .error refusal => refusal.plan host.wording

/-- What a run leaves behind. -/
structure Outcome where
  code : Nat
  output : String
  /-- The line that tells what went wrong. For exit code 1 it is given without the word in front that
  says that this is an error. A run without arguments shows help in its place. -/
  error : Option String
  files : FileTree

/-- What is said when a file has been written. -/
def savedText (path : String) : String :=
  "Config written to " ++ String.ofList (Text.shown path.toList) ++ "\n"

/-- The outcome of a plan. -/
def Plan.outcome (files : FileTree) : Plan → Outcome
  | .print text => ⟨0, text, none, files⟩
  | .save path text =>
    let saved := files.save path (.text text)
    match saved.fault with
    | none => ⟨0, savedText path, none, saved.tree⟩
    | some fault => ⟨1, "", some fault.message, saved.tree⟩
  | .fail message => ⟨1, "", some message, files⟩
  | .refuse line => ⟨2, "", line, files⟩

/-- The outcome of a command line. -/
def run (host : Host) (args : List String) : Outcome :=
  (plan host args).outcome host.files

end MetricQuery
