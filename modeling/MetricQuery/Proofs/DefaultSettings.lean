import MetricQuery.Proofs.SettingsLayers
import MetricQuery.Proofs.TomlLines

/-!
# Settings that are written out

The file that a user starts from holds every setting at its default, so asking for it is like asking for nothing:
`run_template`. Two things come together. The text of the file, line by line, gives the default settings,
`parse?_template`; and an option for the configuration at the head of a command line changes nothing else in the way the
rest of it is read, `Invocation.parse_leading`.

There is one exception, `run_template_bare`. A command line with nothing in it asks for nothing, and is answered with
help; with the option in front it has something in it, and what it lacks is a command.
-/

set_option autoImplicit false

namespace MetricQuery

/-! ## The file -/

namespace Settings

/-- The lines of the file with all defaults. -/
def templateLines : List Toml.Line :=
  [.comment " promql-builder Configuration",
    .comment "",
    .comment " Environment variables override these settings:",
    .comment " - PROMQL_BUILDER_LOG_LEVEL",
    .comment " - PROMQL_BUILDER_LOG_FORMAT",
    .comment " - PROMQL_BUILDER_OUTPUT_FORMAT",
    .blank,
    .header "logging",
    .comment " Log level: trace, debug, info, warn, error",
    .entry "level" "info",
    .blank,
    .comment " Log format: pretty (for development) or json (for production)",
    .entry "format" "pretty",
    .blank,
    .header "output",
    .comment " How expressions are printed: text (PromQL) or json (expression tree)",
    .entry "format" "text"]

set_option maxRecDepth 2000 in
/-- The file with all defaults consists of these lines. -/
theorem toList_template : template.toList = templateLines.flatMap Toml.Line.chars := by
  unfold template templateLines
  -- Literals are taken apart one by one, which is faster than evaluating the whole text.
  repeat rw [String.toList_append]
  repeat rw [List.flatMap_cons]
  rw [List.flatMap_nil]
  dsimp only [Toml.Line.chars]
  repeat rw [String.toList_ofList]
  rfl

/-- Each of the lines is of a kind that is read by itself. -/
theorem isSimple_of_mem_templateLines : ∀ line ∈ templateLines, line.isSimple = true := by
  rw [← List.all_eq_true]
  unfold templateLines
  repeat rw [List.all_cons]
  dsimp only [Toml.Line.isSimple, Toml.Line.isBareName]
  repeat rw [String.toList_ofList]
  rfl

/-- The file has two tables with three entries. -/
theorem entries_template :
    Toml.parse? template.toList = some [
      ("logging", .table .header [("level", .string "info"), ("format", .string "pretty")]),
      ("output", .table .header [("format", .string "text")])] := by
  have hlines : templateLines.foldlM Toml.Line.apply {} = some ⟨[
      ("logging", .table .header [("level", .string "info"), ("format", .string "pretty")]),
      ("output", .table .header [("format", .string "text")])], ["output"]⟩ := rfl
  rw [toList_template, Toml.parse?_lines isSimple_of_mem_templateLines, hlines]
  rfl

/-- The file with all defaults gives the defaults. -/
theorem parse?_template : parse? template = some {} := by
  unfold parse?
  rw [entries_template]
  rfl

/-- A place without a file has no settings. -/
theorem not_holds_of_no_file {files : FileTree} {path : String} (h : ∀ content, files.read path ≠ .ok content)
    (s : Settings) : ¬ Holds files path s := by
  rintro ⟨text, hread, -⟩
  exact h _ hread

/-- Settings that are all asked for at their defaults are those of a run that asks for none and finds none. -/
theorem resolve_template {files : FileTree} {home : Option String} {path : String} (env : Environment)
    (hplaces : ∀ place ∈ usualPlaces home, ∀ content, files.read place ≠ .ok content)
    (hfile : files.read path = .ok (.text template)) :
    resolve files home env (some path) = resolve files home env none := by
  have hload : load files path = .ok {} := load_eq_ok_iff.mpr ⟨template, hfile, parse?_template⟩
  have hsearch : search files (usualPlaces home) = {} :=
    Base.search_eq (.missing fun place hplace => not_holds_of_no_file (hplaces place hplace))
  rw [resolve, resolve, hload, hsearch]

end Settings

/-! ## The run -/

section Run

variable {host : Host} {path : String} {args : List String}

/-- With something on the command line, the plan is the same with an option for a file with all defaults. -/
theorem plan_template (hpath : path ≠ "") (hhyphen : path.toList.head? ≠ some '-')
    (hplaces : ∀ place ∈ Settings.usualPlaces host.home, ∀ content, host.files.read place ≠ .ok content)
    (hfile : host.files.read path = .ok (.text Settings.template)) (hargs : Field.config.AbsentFrom args)
    (hnil : args ≠ []) (hescape : args ≠ ["--"]) :
    plan host ("--config" :: path :: args) = plan host args := by
  have hled := Invocation.parse_leading (.inr rfl) (decide_eq_true hpath) hhyphen hargs hnil hescape
  change Invocation.parse ("--config" :: path :: args) = _ at hled
  rw [plan, plan, hled]
  cases hparse : Invocation.parse args with
  | error refusal => rfl
  | ok invocation =>
    change Invocation.plan host { invocation with config := some path } = Invocation.plan host invocation
    rw [Invocation.plan, Invocation.plan, Invocation.config_eq_none hargs hparse,
      Settings.resolve_template host.environment hplaces hfile]

/-- A command line with nothing in it is refused without a word about it. -/
theorem run_bare (host : Host) (hbare : args = [] ∨ args = ["--"]) : run host args = ⟨2, "", none, host.files⟩ := by
  have hparse : Invocation.parse args = .error .empty := by
    rcases hbare with rfl | rfl <;> rfl
  rw [run, plan, hparse]
  rfl

/-- With an option for the configuration in front it lacks a command, and is refused for that. -/
theorem run_config_bare (host : Host) (hpath : path ≠ "") (hhyphen : path.toList.head? ≠ some '-')
    (hbare : args = [] ∨ args = ["--"]) :
    run host ("--config" :: path :: args) = ⟨2, "", some (host.wording.misuse .missingCommand), host.files⟩ := by
  have haccepts : Field.config.accepts path = true := decide_eq_true hpath
  have hsettle : Given.settle { pending := some (.config, some path) } = .ok { values := [(.config, path)] } := by
    simp [Given.settle, Given.put, Given.get?, haccepts]
  have hlacks (ended : Bool) : Invocation.ofReading { before := { pending := some (.config, some path) }, ended } =
      .error (.misuse .missingCommand) := by
    simp only [Invocation.ofReading, hsettle, bind, Except.bind]
    rfl
  have hread : Reading.readAll {} ("--config" :: path :: args) =
      Reading.readAll { before := { pending := some (.config, some path) } } args :=
    @Invocation.readAll_cons_cons .config path args (.inr rfl) hhyphen
  have hparse : Invocation.parse ("--config" :: path :: args) = .error (.misuse .missingCommand) := by
    rw [Invocation.parse, hread]
    rcases hbare with rfl | rfl
    · exact hlacks false
    · exact hlacks true
  rw [run, plan, hparse]
  rfl

end Run

/-- Asking for a file with all defaults changes nothing, where no file with settings is found otherwise: the same exit
code, output, error line and files, whatever the command line, the input and the environment. Only if there is nothing
on the command line but the option, and perhaps two hyphens, there is an error line, and there would be none without the
option; the exit code, the output and the files are the same even then. -/
theorem run_template (host : Host) (path : String) (args : List String) (hpath : path ≠ "")
    (hhyphen : path.toList.head? ≠ some '-')
    (hplaces : ∀ place ∈ (host.home.map fun directory => directory ++ "/promql-builder/config.toml").toList ++
      ["/etc/promql-builder/config.toml", "./promql-builder.toml"], ∀ content, host.files.read place ≠ .ok content)
    (hfile : host.files.read path = .ok (.text Settings.template)) (hargs : Field.config.AbsentFrom args) :
    (args ≠ [] → args ≠ ["--"] → run host ("--config" :: path :: args) = run host args) ∧
    (args = [] ∨ args = ["--"] → run host args = ⟨2, "", none, host.files⟩ ∧
      run host ("--config" :: path :: args) =
        ⟨2, "", some (host.wording.misuse .missingCommand), host.files⟩) := by
  refine ⟨fun hnil hescape => ?_, fun hbare => ⟨run_bare host hbare, run_config_bare host hpath hhyphen hbare⟩⟩
  rw [run, run, plan_template hpath hhyphen hplaces hfile hargs hnil hescape]

/-- A host without any of the usual files, where the defaults stand in a directory of their own. -/
def templateHost : Host where
  files := .ofFiles [("conf/promql.toml", .text Settings.template), ("tree.json", .text "[]")]
  environment := .ofLookup fun name => if name = "PROMQL_BUILDER_OUTPUT_FORMAT" then some "JSON" else none
  home := some "/home"

/-- None of the usual places has a file. -/
theorem no_file_templateHost :
    ∀ place ∈ Settings.usualPlaces templateHost.home, ∀ content, templateHost.files.read place ≠ .ok content := by
  have hplaces : Settings.usualPlaces templateHost.home =
      ["/home/promql-builder/config.toml", "/etc/promql-builder/config.toml", "./promql-builder.toml"] := by
    simp [templateHost, Settings.usualPlaces]
  have hhome : templateHost.files.read "/home/promql-builder/config.toml" = .error .notFound := rfl
  have hshared : templateHost.files.read "/etc/promql-builder/config.toml" = .error .notFound := rfl
  have hlocal : templateHost.files.read "./promql-builder.toml" = .error .notFound := rfl
  rw [hplaces]
  simp [hhome, hshared, hlocal]

/-- An operand that looks like the option, behind the two hyphens. -/
theorem run_template_hyphens :
    run templateHost ["--config", "conf/promql.toml", "vector", "--offset=5m", "--", "-c"] =
      run templateHost ["vector", "--offset=5m", "--", "-c"] :=
  (run_template templateHost "conf/promql.toml" ["vector", "--offset=5m", "--", "-c"] (by decide) (by decide)
    no_file_templateHost rfl (by decide)).1 nofun (by decide)

/-- Without a command the error lines are not the same. -/
theorem run_template_bare :
    (run templateHost ["--config", "conf/promql.toml"]).error =
      some "error: 'promql' requires a subcommand but one was not provided" ∧
    (run templateHost []).error = none ∧
    ¬ ∀ (host : Host) (path : String) (args : List String), path ≠ "" → path.toList.head? ≠ some '-' →
      (∀ place ∈ (host.home.map fun directory => directory ++ "/promql-builder/config.toml").toList ++
        ["/etc/promql-builder/config.toml", "./promql-builder.toml"], ∀ content, host.files.read place ≠ .ok content) →
      host.files.read path = .ok (.text Settings.template) → Field.config.AbsentFrom args →
      run host ("--config" :: path :: args) = run host args := by
  have hoption : run templateHost ["--config", "conf/promql.toml"] = _ :=
    run_config_bare templateHost (by decide) (by decide) (.inl rfl)
  have hnone := run_bare templateHost (.inl rfl)
  have hline : (run templateHost ["--config", "conf/promql.toml"]).error =
      some "error: 'promql' requires a subcommand but one was not provided" := by
    rw [hoption]
    rfl
  have hnoLine : (run templateHost []).error = none := by rw [hnone]
  refine ⟨hline, hnoLine, fun hsame => ?_⟩
  rw [hsame templateHost "conf/promql.toml" [] (by decide) (by decide) no_file_templateHost rfl (by decide),
    hnoLine] at hline
  cases hline

end MetricQuery
