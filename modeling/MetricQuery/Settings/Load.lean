import MetricQuery.Files.Tree
import MetricQuery.Settings.Decode
import MetricQuery.Text.Shown

/-!
# Settings from files

Settings come from one file: the one that is asked for, or else the first of the usual places that
has a file with settings. A file that is asked for must be there and fit; one in a usual place that
does not fit is passed over as if it were not there. The environment has the last word in all cases.
-/

set_option autoImplicit false

namespace MetricQuery

/-- Why a file gives no settings. -/
inductive SettingsFault where
  | unreadable (path : String) (fault : FileFault)
  | malformed (path : String)
deriving DecidableEq, Repr

namespace SettingsFault

/-- What a fault is about. -/
def message : SettingsFault → String
  | unreadable path fault =>
    "Failed to read config file " ++ String.ofList (Text.shown path.toList) ++ ": " ++ fault.message
  | malformed path =>
    "Failed to parse config file " ++ String.ofList (Text.shown path.toList)

/-- What is said of a text, when there is one. -/
def detail (defect : String → String) : Except FileFault String → String
  | .ok text => ": " ++ defect text
  | .error _ => ""

/-- All that is said of a fault. A text that holds no settings has a defect, and it is for the reader
of documents to name it. -/
def report (files : FileTree) (defect : String → String) : SettingsFault → String
  | unreadable path fault => message (unreadable path fault)
  | malformed path => message (malformed path) ++ detail defect (files.readText path)

end SettingsFault

namespace Settings

/-- The settings in a file. -/
def load (files : FileTree) (path : String) : Except SettingsFault Settings :=
  match files.readText path with
  | .error fault => .error (.unreadable path fault)
  | .ok text =>
    match parse? text with
    | some s => .ok s
    | none => .error (.malformed path)

/-- The usual places, in the order in which they are tried. `home` is the directory for the user's
own configuration. -/
def usualPlaces (home : Option String) : List String :=
  (home.map fun directory => directory ++ "/promql-builder/config.toml").toList ++
    ["/etc/promql-builder/config.toml", "./promql-builder.toml"]

/-- The settings of the first file that has some; the defaults when none has. -/
def search (files : FileTree) : List String → Settings
  | [] => {}
  | path :: paths =>
    match load files path with
    | .ok s => s
    | .error _ => search files paths

/-- The settings of a run: from the file that was asked for, or from the usual places. -/
def resolve (files : FileTree) (home : Option String) (env : Environment) :
    Option String → Except SettingsFault Settings
  | some path =>
    match load files path with
    | .ok s => .ok (s.override env)
    | .error fault => .error fault
  | none => .ok ((search files (usualPlaces home)).override env)

end Settings

end MetricQuery
