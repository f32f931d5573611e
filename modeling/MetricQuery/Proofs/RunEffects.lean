import MetricQuery.Command.Run
import MetricQuery.Proofs.ArgumentReading

/-!
# What a run leaves behind

A run that fails has printed nothing, and only a run that writes a configuration to a file changes anything:
`run_effects`. Such a run makes the directories that are missing and then writes its one file. Making directories keeps
every file, `Extends`, also when it fails half way; writing is the last step, and a step that fails does nothing. So
what could be read before can be read afterwards, except for the file that was written, which holds the configuration.
-/

set_option autoImplicit false

namespace MetricQuery

namespace FileTree

/-! ## Making directories -/

/-- The files of two trees are the same, and so are their locks, and no directory is missing in the second. -/
structure Extends (before after : FileTree) : Prop where
  files : after.files = before.files
  directories : ∀ place ∈ before.directories, place ∈ after.directories
  locked : after.locked = before.locked

/-- A tree extends itself. -/
theorem Extends.refl (tree : FileTree) : Extends tree tree :=
  ⟨rfl, fun _ h => h, rfl⟩

/-- What extends an extension extends the tree. -/
theorem Extends.trans {a b c : FileTree} (h : Extends a b) (h' : Extends b c) : Extends a c :=
  ⟨h'.files.trans h.files, fun place hplace => h'.directories place (h.directories place hplace),
    h'.locked.trans h.locked⟩

section Making

variable {tree changed : FileTree} {start : Location} {parts : List String}

/-- Making a directory extends the tree. -/
theorem extends_of_makeDirectory (h : tree.makeDirectory start parts = .ok changed) : Extends tree changed := by
  unfold makeDirectory at h
  cases hwalk : tree.walk start parts with
  | error fault => simp [hwalk, bind, Except.bind] at h
  | ok place =>
    simp only [hwalk, bind, Except.bind] at h
    split at h
    · cases h
      exact ⟨rfl, fun _ hmem => List.mem_cons_of_mem place hmem, rfl⟩
    · cases h

/-- So does making it unless it is there. -/
theorem extends_of_ensureDirectory (h : tree.ensureDirectory start parts = .ok changed) : Extends tree changed := by
  unfold ensureDirectory at h
  split at h
  · rename_i hmake
    cases h
    exact extends_of_makeDirectory hmake
  · split at h
    · cases h
      exact .refl tree
    · cases h

/-- So does a step that does when it succeeds, since else it does nothing. -/
theorem extends_step {result : Except FileFault FileTree} (h : ∀ changed, result = .ok changed → Extends tree changed) :
    Extends tree (Progress.step tree result).tree := by
  cases result with
  | ok changed => exact h changed rfl
  | error fault => exact .refl tree

/-- So do two steps that both do. -/
theorem extends_andThen {progress : Progress} {next : FileTree → Progress} (h : Extends tree progress.tree)
    (hnext : Extends progress.tree (next progress.tree).tree) : Extends tree (progress.andThen next).tree := by
  unfold Progress.andThen
  split
  · exact h.trans hnext
  · exact h

/-- Making a directory and those above it keeps all files, however far it gets. -/
theorem extends_makeChain (tree : FileTree) (start : Location) (parts : List String) :
    Extends tree (tree.makeChain start parts).tree := by
  induction parts with
  | nil => exact .refl tree
  | cons part before ih =>
    unfold makeChain
    split
    · exact extends_andThen ih (extends_step fun changed => extends_of_ensureDirectory)
    · exact extends_step fun changed => extends_of_ensureDirectory

/-- So does making a directory and those above it. -/
theorem extends_makeDirectories (tree : FileTree) (text : String) : Extends tree (tree.makeDirectories text).tree := by
  unfold makeDirectories
  split
  · exact .refl tree
  · split
    · exact .refl tree
    · exact extends_makeChain tree _ _

end Making

/-! ## What stays in its place -/

/-- A change after which every directory is still one, and the same places are locked. -/
structure KeepsAccess (before after : FileTree) : Prop where
  directory : ∀ place, before.lookup place = .directory → after.lookup place = .directory
  locked : after.locked = before.locked

/-- One change after the other. -/
theorem KeepsAccess.trans {a b c : FileTree} (h : KeepsAccess a b) (h' : KeepsAccess b c) : KeepsAccess a c :=
  ⟨fun place hplace => h'.directory place (h.directory place hplace), h'.locked.trans h.locked⟩

section Reading

variable {before after : FileTree} {place : Location}

/-- A place is a directory when no file stands there and something shows that it is one. -/
theorem lookup_eq_directory_iff {tree : FileTree} :
    tree.lookup place = .directory ↔ tree.files.lookup place = none ∧ tree.hasDirectory place = true := by
  unfold lookup
  cases tree.files.lookup place with
  | some content => simp
  | none => cases tree.hasDirectory place <;> simp

/-- A place is a file when one stands there. -/
theorem lookup_eq_file_iff {tree : FileTree} {content : Content} :
    tree.lookup place = .file content ↔ tree.files.lookup place = some content := by
  unfold lookup
  cases tree.files.lookup place with
  | some content => simp
  | none => cases tree.hasDirectory place <;> simp

/-- A place is still a directory when there are more files and directories. -/
theorem hasDirectory_mono (hfiles : ∀ entry ∈ before.files, ∃ entry' ∈ after.files, entry'.1 = entry.1)
    (hdirectories : ∀ directory ∈ before.directories, directory ∈ after.directories)
    (h : before.hasDirectory place = true) : after.hasDirectory place = true := by
  unfold hasDirectory at h ⊢
  simp only [Bool.or_eq_true, List.any_eq_true] at h ⊢
  rcases h with (habove | ⟨entry, hentry, hpre⟩) | ⟨directory, hdirectory, hpre⟩
  · exact .inl (.inl habove)
  · obtain ⟨entry', hentry', hkey⟩ := hfiles entry hentry
    exact .inl (.inr ⟨entry', hentry', hkey ▸ hpre⟩)
  · exact .inr ⟨directory, hdirectories directory hdirectory, hpre⟩

/-- An extension keeps all access. -/
theorem Extends.keepsAccess (h : Extends before after) : KeepsAccess before after := by
  refine ⟨fun place hplace => ?_, h.locked⟩
  rw [lookup_eq_directory_iff] at hplace ⊢
  rw [h.files]
  refine ⟨hplace.1, hasDirectory_mono ?_ h.directories hplace.2⟩
  rw [h.files]
  exact fun entry hentry => ⟨entry, hentry, rfl⟩

/-- Writing a file where no directory is makes none disappear. -/
theorem keepsAccess_put {tree : FileTree} (content : Content) (h : tree.lookup place ≠ .directory) :
    KeepsAccess tree (tree.put place content) := by
  refine ⟨fun other hother => ?_, rfl⟩
  have hne : other ≠ place := by
    rintro rfl
    exact h hother
  rw [lookup_eq_directory_iff] at hother ⊢
  rw [files_put, if_neg hne]
  have hfiles : ∀ entry ∈ tree.files, ∃ entry' ∈ (tree.put place content).files, entry'.1 = entry.1 := by
    intro entry hentry
    by_cases hkey : entry.1 = place
    · exact ⟨(place, content), List.mem_cons_self, hkey.symm⟩
    · exact ⟨entry, List.mem_cons_of_mem _ (List.mem_filter.mpr ⟨hentry, by simpa using hkey⟩), rfl⟩
  exact ⟨hother.1, hasDirectory_mono hfiles (fun _ hmem => hmem) hother.2⟩

/-- A directory is where one is required when the place is one. -/
theorem requireDirectory_eq_ok_iff {tree : FileTree} :
    tree.requireDirectory place = .ok () ↔ tree.lookup place = .directory := by
  unfold requireDirectory
  cases tree.lookup place <;> simp

/-- A walk goes on from a directory, along a name that is not too long. -/
theorem walk_cons_eq_ok_iff {tree : FileTree} {last : Location} {part : String} {parts : List String} :
    tree.walk place (part :: parts) = .ok last ↔
      tree.lookup place = .directory ∧ ¬ Path.nameLimit < part.utf8ByteSize ∧
        tree.walk (place.step part) parts = .ok last := by
  rw [walk, bind_unit_eq_ok_iff, requireDirectory_eq_ok_iff]
  refine and_congr_right fun _ => ?_
  split
  · rename_i hlong
    exact ⟨nofun, fun h => absurd hlong h.1⟩
  · rename_i hlong
    exact ⟨fun h => ⟨hlong, h⟩, fun h => h.2⟩

/-- Names that lead somewhere still do. -/
theorem KeepsAccess.walk_eq (h : KeepsAccess before after) {last : Location} {parts : List String}
    (hwalk : before.walk place parts = .ok last) : after.walk place parts = .ok last := by
  induction parts generalizing place with
  | nil => exact hwalk
  | cons part parts ih =>
    rw [walk_cons_eq_ok_iff] at hwalk ⊢
    exact ⟨h.directory place hwalk.1, hwalk.2.1, ih hwalk.2.2⟩

/-- Names lead to the place that they spell. -/
theorem eq_foldl_of_walk {tree : FileTree} {last : Location} {parts : List String}
    (h : tree.walk place parts = .ok last) : last = parts.foldl Location.step place := by
  induction parts generalizing place with
  | nil =>
    cases h
    rfl
  | cons part parts ih => exact ih (walk_cons_eq_ok_iff.mp h).2.2

/-- A text that names a path names the one that it spells. -/
theorem pathOf_eq_ok {text : String} {path : Path} (h : pathOf text = .ok path) : path = .ofText text := by
  unfold pathOf at h
  split at h
  · cases h
  · split at h
    · cases h
    · cases h
      rfl

/-- A file is read at the place of its path, if the names lead there, no slash stands at the end and the place is not
locked. -/
theorem read_eq_ok_iff {tree : FileTree} {text : String} {content : Content} :
    tree.read text = .ok content ↔ pathOf text = .ok (.ofText text) ∧
      tree.walk (Path.ofText text).start (Path.ofText text).parts = .ok (Path.ofText text).location ∧
      (Path.ofText text).slash = false ∧ (Path.ofText text).location ∉ tree.locked ∧
      tree.files.lookup (Path.ofText text).location = some content := by
  rw [read, bind_eq_ok_iff]
  constructor
  · rintro ⟨path, hpath, hread⟩
    obtain rfl := pathOf_eq_ok hpath
    obtain ⟨last, hwalk, hfile⟩ := bind_eq_ok_iff.mp hread
    obtain rfl : last = (Path.ofText text).location := eq_foldl_of_walk hwalk
    refine ⟨hpath, hwalk, ?_⟩
    split at hfile
    · cases hfile
    · rename_i found hlookup
      split at hfile
      · cases hfile
      · rename_i hslash
        split at hfile
        · cases hfile
        · rename_i hopen
          cases hfile
          exact ⟨by simpa using hslash, hopen, lookup_eq_file_iff.mp hlookup⟩
    · cases hfile
  · rintro ⟨hpath, hwalk, hslash, hopen, hfile⟩
    refine ⟨_, hpath, bind_eq_ok_iff.mpr ⟨_, hwalk, ?_⟩⟩
    rw [lookup_eq_file_iff.mpr hfile, hslash]
    simp only [Bool.false_eq_true, if_false, if_neg hopen]
    rfl

/-- A file that could be read still can, if it is still there. -/
theorem KeepsAccess.read_eq (h : KeepsAccess before after) {text : String} {content : Content}
    (hread : before.read text = .ok content)
    (hfile : after.files.lookup (Path.ofText text).location = before.files.lookup (Path.ofText text).location) :
    after.read text = .ok content := by
  rw [read_eq_ok_iff] at hread ⊢
  obtain ⟨hpath, hwalk, hslash, hopen, hlookup⟩ := hread
  exact ⟨hpath, h.walk_eq hwalk, hslash, h.locked ▸ hopen, hfile.trans hlookup⟩

/-- An extension holds what the tree holds. -/
theorem Extends.read_eq (h : Extends before after) {text : String} {content : Content}
    (hread : before.read text = .ok content) : after.read text = .ok content :=
  h.keepsAccess.read_eq hread (by rw [h.files])

end Reading

/-! ## Saving -/

section Saving

variable {tree changed : FileTree} {text : String} {content : Content}

/-- Writing puts the file at the place of its path, which is not locked. -/
theorem write_eq_ok (h : tree.write text content = .ok changed) :
    pathOf text = .ok (.ofText text) ∧ (Path.ofText text).slash = false ∧
      tree.walk (Path.ofText text).start (Path.ofText text).parts = .ok (Path.ofText text).location ∧
      tree.lookup (Path.ofText text).location ≠ .directory ∧ (Path.ofText text).location ∉ tree.locked ∧
      changed = tree.put (Path.ofText text).location content := by
  rw [write, bind_eq_ok_iff] at h
  obtain ⟨path, hpath, hwrite⟩ := h
  obtain rfl := pathOf_eq_ok hpath
  split at hwrite
  · -- A slash at the end ends in a failure on all ways.
    obtain ⟨last, -, hdirectory⟩ := bind_eq_ok_iff.mp hwrite
    obtain ⟨-, -, hthrow⟩ := bind_eq_ok_iff.mp hdirectory
    cases hthrow
  · rename_i hslash
    obtain ⟨last, hwalk, hput⟩ := bind_eq_ok_iff.mp hwrite
    obtain rfl : last = (Path.ofText text).location := eq_foldl_of_walk hwalk
    refine ⟨hpath, by simpa using hslash, hwalk, ?_⟩
    split at hput
    · cases hput
    · rename_i hplace
      split at hput
      · cases hput
      · rename_i hopen
        cases hput
        exact ⟨hplace, hopen, rfl⟩

/-- What was written can be read, and all other files as before. -/
theorem read_of_write (h : tree.write text content = .ok changed) :
    changed.read text = .ok content ∧
      changed.files = tree.files.put (Path.ofText text).location content ∧ KeepsAccess tree changed := by
  obtain ⟨hpath, hslash, hwalk, hplace, hopen, rfl⟩ := write_eq_ok h
  have hkeeps := keepsAccess_put content hplace
  refine ⟨?_, rfl, hkeeps⟩
  rw [read_eq_ok_iff]
  exact ⟨hpath, hkeeps.walk_eq hwalk, hslash, hopen, by rw [files_put, if_pos rfl]⟩

/-- Saving fails with all files as they were, or writes its one file. -/
theorem save_cases (tree : FileTree) (text : String) (content : Content) :
    (∃ fault, (tree.save text content).fault = some fault) ∧ Extends tree (tree.save text content).tree ∨
    (tree.save text content).fault = none ∧ (tree.save text content).tree.read text = .ok content ∧
      (tree.save text content).tree.files = tree.files.put (Path.ofText text).location content ∧
      KeepsAccess tree (tree.save text content).tree := by
  have hmade := extends_makeDirectories tree (Path.directoryText text)
  unfold save Progress.andThen
  generalize tree.makeDirectories (Path.directoryText text) = made at hmade
  cases hfault : made.fault with
  | some fault => exact .inl ⟨⟨fault, hfault⟩, hmade⟩
  | none =>
    dsimp only
    cases hwrite : made.tree.write text content with
    | error fault => exact .inl ⟨⟨fault, rfl⟩, hmade⟩
    | ok changed =>
      obtain ⟨hread, hfiles, hkeeps⟩ := read_of_write hwrite
      refine .inr ⟨rfl, hread, ?_, ?_⟩
      · exact hfiles.trans (by rw [hmade.files])
      · exact hmade.keepsAccess.trans hkeeps

end Saving

end FileTree

/-! ## Runs -/

/-- A command line that writes a configuration to a file. -/
def SavesTo (args : List String) (path : String) : Prop :=
  ∃ invocation, Invocation.parse args = .ok invocation ∧ invocation.request = .config (some path)

/-- Such a command line has the command and the option for the file among its arguments. -/
theorem SavesTo.spelled {args : List String} {path : String} (h : SavesTo args path) :
    "config" ∈ args ∧ ∃ arg ∈ args.takeWhile (· ≠ "--"), Field.output.SpelledBy arg := by
  obtain ⟨invocation, hparse, hconfig⟩ := h
  obtain ⟨r, hread, hr⟩ := Invocation.exists_reading_of_parse hparse
  obtain ⟨verb, _, behind, hverb, -, hbehind, hrequest, -⟩ := Invocation.ofReading_cases hr
  rw [hconfig] at hrequest
  obtain ⟨rfl, houtput⟩ : verb = .config ∧ behind.get? .output = some path := by
    unfold Invocation.request? at hrequest
    split at hrequest <;> simp_all
  constructor
  · rcases Reading.verb_readAll hread hverb with hnone | hmem
    · cases hnone
    · exact hmem
  · have hgiven : Field.output ∈ r.fields :=
      List.mem_append_right _ ((Given.mem_fields_settle hbehind).mp (Given.mem_fields_of_get? houtput))
    rcases Reading.fields_readAll hread hgiven with hnone | ⟨-, hspelled⟩
    · cases hnone
    · exact hspelled

/-- Only the request for a configuration in a file has a file in its plan, and it holds all defaults. -/
theorem Request.eq_config_of_plan {host : Host} {format : OutputFormat} {request : Request} {path text : String}
    (h : request.plan host format = .ok (.save path text)) :
    request = .config (some path) ∧ text = Settings.template := by
  cases request with
  | render input =>
    obtain ⟨read, -, hread⟩ := bind_eq_ok_iff.mp h
    split at hread <;> cases hread
  | vector metric labels range offset instant =>
    obtain ⟨s, -, hs⟩ := bind_eq_ok_iff.mp h
    cases hs
  | demo => cases h
  | config output =>
    cases output with
    | none => cases h
    | some output =>
      cases h
      exact ⟨rfl, rfl⟩

/-- Only a command line that saves to a path plans to write there. -/
theorem savesTo_of_plan {host : Host} {args : List String} {path text : String} (h : plan host args = .save path text) :
    SavesTo args path := by
  unfold plan Invocation.plan at h
  split at h
  · rename_i invocation hparse
    split at h
    · cases h
    · split at h
      · rename_i hrequest
        exact ⟨invocation, hparse, (Request.eq_config_of_plan (h ▸ hrequest)).1⟩
      · cases h
  · rename_i refusal _
    cases refusal <;> cases h

/-- A command line that writes a configuration does so unless its settings are not to be had. -/
theorem SavesTo.plan_cases {args : List String} {path : String} (h : SavesTo args path) (host : Host) :
    (∃ message, plan host args = .fail message) ∨ plan host args = .save path Settings.template := by
  obtain ⟨invocation, hparse, hrequest⟩ := h
  simp only [plan, hparse, Invocation.plan, hrequest]
  cases Settings.resolve host.files host.home host.environment invocation.config with
  | error fault => exact .inl ⟨_, rfl⟩
  | ok settings => exact .inr rfl

/-- Writing a file prints something only when nothing went wrong. -/
theorem Plan.outcome_save_cases (files : FileTree) (path text : String) :
    (files.save path (.text text)).fault = none ∧
      outcome files (.save path text) = ⟨0, savedText path, none, (files.save path (.text text)).tree⟩ ∨
    ∃ fault, (files.save path (.text text)).fault = some fault ∧
      outcome files (.save path text) = ⟨1, "", some fault.message, (files.save path (.text text)).tree⟩ := by
  cases hfault : (files.save path (.text text)).fault with
  | none => exact .inl ⟨rfl, by simp only [outcome, hfault]⟩
  | some fault => exact .inr ⟨fault, rfl, by simp only [outcome, hfault]⟩

/-- A plan that fails prints nothing. -/
theorem Plan.output_outcome (files : FileTree) (p : Plan) (h : (p.outcome files).code ≠ 0) :
    (p.outcome files).output = "" := by
  cases p with
  | print text => exact absurd rfl h
  | save path text =>
    rcases outcome_save_cases files path text with ⟨-, heq⟩ | ⟨fault, -, heq⟩
    · rw [heq] at h
      exact absurd rfl h
    · rw [heq]
  | fail message => rfl
  | refuse line => rfl

/-- A plan that is not to write a file leaves all files. -/
theorem Plan.files_outcome (files : FileTree) (p : Plan) (h : ∀ path text, p ≠ .save path text) :
    (p.outcome files).files = files := by
  cases p with
  | save path text => exact absurd rfl (h path text)
  | print text => rfl
  | fail message => rfl
  | refuse line => rfl

/-- The files of a command line that writes a configuration: with an exit code other than 0 all are as they were, and
otherwise all but the one that was written. -/
theorem SavesTo.files_run {args : List String} {path : String} (h : SavesTo args path) (host : Host) :
    ((run host args).code ≠ 0 → host.files.Extends (run host args).files) ∧
    ((run host args).code = 0 →
      (run host args).files.read path = .ok (.text Settings.template) ∧
      (run host args).files.files = host.files.files.put (Path.ofText path).location (.text Settings.template) ∧
      host.files.KeepsAccess (run host args).files) := by
  rcases h.plan_cases host with ⟨message, hplan⟩ | hplan
  · rw [run, hplan]
    exact ⟨fun _ => .refl host.files, nofun⟩
  · rw [run, hplan]
    have hsaved := host.files.save_cases path (.text Settings.template)
    rcases Plan.outcome_save_cases host.files path Settings.template with ⟨hfault, heq⟩ | ⟨fault, hfault, heq⟩
    · rw [hfault] at hsaved
      rw [heq]
      dsimp only
      rcases hsaved with ⟨⟨fault, hsome⟩, -⟩ | ⟨-, hsaved⟩
      · cases hsome
      · exact ⟨fun hcode => absurd rfl hcode, fun _ => hsaved⟩
    · rw [hfault] at hsaved
      rw [heq]
      dsimp only
      rcases hsaved with ⟨-, hextends⟩ | ⟨hnone, -⟩
      · exact ⟨fun _ => hextends, nofun⟩
      · cases hnone

/-- A run that fails prints nothing. Only a command line that writes a configuration changes files: when it fails, every
file holds what it held and is found where it was, and otherwise so does every file but the one that was asked for,
which holds the configuration with all defaults. -/
theorem run_effects (host : Host) (args : List String) :
    ((run host args).code ≠ 0 → (run host args).output = "") ∧
    ((∀ path, ¬ SavesTo args path) → (run host args).files = host.files) ∧
    ∀ path, SavesTo args path →
      ("config" ∈ args ∧ ∃ arg ∈ args.takeWhile (· ≠ "--"), Field.output.SpelledBy arg) ∧
      ((run host args).code ≠ 0 → (run host args).files.files = host.files.files ∧
        ∀ text content, host.files.read text = .ok content → (run host args).files.read text = .ok content) ∧
      ((run host args).code = 0 → (run host args).files.read path = .ok (.text Settings.template) ∧
        (∀ place, place ≠ (Path.ofText path).location →
          (run host args).files.files.lookup place = host.files.files.lookup place) ∧
        ∀ text content, (Path.ofText text).location ≠ (Path.ofText path).location →
          host.files.read text = .ok content → (run host args).files.read text = .ok content) := by
  refine ⟨Plan.output_outcome host.files _, fun hnot => ?_, fun path h => ⟨h.spelled, fun hcode => ?_, fun hcode => ?_⟩⟩
  · exact Plan.files_outcome host.files _ fun path text hplan => hnot path (savesTo_of_plan hplan)
  · have hextends := (h.files_run host).1 hcode
    exact ⟨hextends.files, fun text content => hextends.read_eq⟩
  · obtain ⟨hread, hfiles, hkeeps⟩ := (h.files_run host).2 hcode
    have hothers : ∀ place, place ≠ (Path.ofText path).location →
        (run host args).files.files.lookup place = host.files.files.lookup place := by
      intro place hplace
      rw [hfiles, Association.lookup_put, if_neg hplace]
    exact ⟨hread, hothers, fun text content hplace hbefore => hkeeps.read_eq hbefore (hothers _ hplace)⟩

/-- A host with one file, where a directory of that name would be needed. -/
def occupiedHost : Host where
  files := .ofFiles [("conf", .text "kept")]

/-- Below the file nothing can be written, beside it can. -/
theorem run_effects_occupiedHost :
    (run occupiedHost ["config", "--output", "conf/promql.toml"]).output = "" ∧
    (run occupiedHost ["config", "--output", "conf/promql.toml"]).files.files = occupiedHost.files.files ∧
    (run occupiedHost ["config", "-onew/promql.toml"]).files.read "new/promql.toml" = .ok (.text Settings.template) ∧
    (run occupiedHost ["config", "-onew/promql.toml"]).files.read "conf" = .ok (.text "kept") := by
  have hbelow : (run occupiedHost ["config", "--output", "conf/promql.toml"]).code ≠ 0 := by decide
  have hbeside : (run occupiedHost ["config", "-onew/promql.toml"]).code = 0 := by decide
  obtain ⟨hsilent, -, hfailed⟩ := run_effects occupiedHost ["config", "--output", "conf/promql.toml"]
  obtain ⟨-, -, hwritten⟩ := run_effects occupiedHost ["config", "-onew/promql.toml"]
  obtain ⟨-, hkept, -⟩ := hfailed "conf/promql.toml" ⟨_, rfl, rfl⟩
  obtain ⟨-, -, hdone⟩ := hwritten "new/promql.toml" ⟨_, rfl, rfl⟩
  obtain ⟨hnew, -, hothers⟩ := hdone hbeside
  exact ⟨hsilent hbelow, (hkept hbelow).1, hnew, hothers "conf" _ (by decide) rfl⟩

end MetricQuery
