import MetricQuery.Command.Arguments
import MetricQuery.Proofs.Nodes

/-!
# Where options come from

A command line is read one argument at a time, and an option that was read was spelled out by one of the arguments: by
its long name, with a value behind an equals sign or not, or by its letter. All that one argument can do is listed in
`Reading.Change`. So `fields_step` says it for one argument and `fields_readAll` for all of them; arguments behind the
two hyphens that end the options do not count. In the same way the command is one of the arguments, `verb_readAll`, and
a command line that names neither an option nor a command has nothing but these hyphens, `bare_of_readAll`.
-/

set_option autoImplicit false

namespace MetricQuery

/-! ## Spelling an option -/

namespace Field

/-- The letter of an option that has one. -/
def letter? : Field → Option Char
  | format => some 'f'
  | config => some 'c'
  | label => some 'l'
  | output => some 'o'
  | _ => none

/-- An argument is an option for the field, with a value in the same argument or not. -/
def SpelledBy (field : Field) (arg : String) : Prop :=
  arg = "--" ++ field.longName ∨ ("--" ++ field.longName ++ "=").toList <+: arg.toList ∨
    ∃ letter ∈ field.letter?, ['-', letter] <+: arg.toList

/-- Whether an argument spells an option is decided on its first characters. -/
theorem spelledBy_iff (field : Field) (arg : String) :
    (arg = "--" ++ field.longName ∨ ("--" ++ field.longName ++ "=").toList <+: arg.toList ∨
      (field.letter?.any fun letter => ['-', letter].isPrefixOf arg.toList) = true) ↔ field.SpelledBy arg := by
  unfold SpelledBy
  cases field.letter? with
  | none => simp
  | some letter => simp

instance (field : Field) (arg : String) : Decidable (field.SpelledBy arg) :=
  decidable_of_iff _ (spelledBy_iff field arg)

end Field

namespace Flag

variable {verb : Option Verb} {field : Field}

/-- An option that is found by its long name has that name. -/
theorem longName_eq {name : String} (h : long? verb name = some (.value field)) : field.longName = name := by
  have hshared (hname : sharedLong? name = some (.value field)) : field.longName = name := by
    unfold sharedLong? at hname
    split at hname <;> cases hname <;> rfl
  unfold long? at h
  split at h
  · rename_i hname
    cases h
    exact hshared hname
  · split at h <;> cases h <;> rfl

/-- An option that is found by its letter has that letter. -/
theorem letter?_eq {letter : Char} (h : short? verb letter = some (.value field)) : field.letter? = some letter := by
  have hshared (hletter : sharedShort? letter = some (.value field)) : field.letter? = some letter := by
    unfold sharedShort? at hletter
    split at hletter <;> cases hletter <;> rfl
  unfold short? at h
  split at h
  · rename_i hletter
    cases h
    exact hshared hletter
  · split at h <;> cases h <;> rfl

end Flag

namespace Word

/-- A plain word is the argument itself. -/
theorem eq_of_of_eq_plain {arg text : String} (h : Word.of arg = .plain text) : text = arg := by
  unfold Word.of at h
  split at h
  · cases h
  · cases h
  · cases h
  · cases h
    rfl

/-- Only the two hyphens alone end the options. -/
theorem of_eq_escape_iff {arg : String} : Word.of arg = .escape ↔ arg = "--" := by
  constructor
  · intro h
    unfold Word.of at h
    split at h
    · rename_i htext
      exact String.toList_inj.mp htext
    · cases h
    · cases h
    · cases h
  · rintro rfl
    rfl

/-- An argument without a hyphen at its head is a plain word. -/
theorem of_of_head?_ne {arg : String} (h : arg.toList.head? ≠ some '-') : Word.of arg = .plain arg := by
  unfold Word.of
  split
  · rename_i htext
    exact absurd (by rw [htext]; rfl) h
  · rename_i htext
    exact absurd (by rw [htext]; rfl) h
  · rename_i htext
    exact absurd (by rw [htext]; rfl) h
  · rfl

/-- A long option is written as two hyphens and its name, with a value behind an equals sign or not. -/
theorem eq_of_of_eq_long {arg name : String} {value : Option String} (h : Word.of arg = .long name value) :
    arg = "--" ++ name ∨ ∃ value, arg = "--" ++ name ++ "=" ++ value := by
  unfold Word.of at h
  split at h
  · cases h
  · rename_i text _ htext
    cases h
    have hsplit : text = text.takeWhile (fun c => decide (c ≠ '=')) ++ text.dropWhile fun c => decide (c ≠ '=') :=
      List.takeWhile_append_dropWhile.symm
    cases hrest : text.dropWhile fun c => decide (c ≠ '=') with
    | nil =>
      left
      rw [hrest, List.append_nil] at hsplit
      apply String.toList_inj.mp
      simp only [htext, String.toList_append, String.toList_ofList, ← hsplit]
      rfl
    | cons c rest =>
      right
      have hhead := List.head?_dropWhile_not (fun c => decide (c ≠ '=')) text
      rw [hrest] at hhead
      obtain rfl : c = '=' := by simpa using hhead
      refine ⟨String.ofList rest, String.toList_inj.mp ?_⟩
      rw [hrest] at hsplit
      simp only [htext, String.toList_append, String.toList_ofList, List.append_assoc]
      exact congrArg (fun text => '-' :: '-' :: text) hsplit
  · cases h
  · cases h

/-- A group of letters is the argument behind its hyphen. -/
theorem eq_of_of_eq_short {arg : String} {letter : Char} {rest : List Char} (h : Word.of arg = .short letter rest) :
    arg = String.ofList ('-' :: letter :: rest) := by
  unfold Word.of at h
  split at h
  · cases h
  · cases h
  · rename_i htext
    cases h
    rw [← htext, String.ofList_toList]
  · cases h

end Word

namespace Field

variable {field : Field} {arg name : String} {verb : Option Verb}

/-- An argument that is read as the long name of an option spells it. -/
theorem spelledBy_of_long {value : Option String} (hword : Word.of arg = .long name value)
    (hflag : Flag.long? verb name = some (.value field)) : field.SpelledBy arg := by
  have hname := Flag.longName_eq hflag
  subst hname
  rcases Word.eq_of_of_eq_long hword with harg | ⟨text, rfl⟩
  · exact .inl harg
  · refine .inr (.inl ⟨text.toList, ?_⟩)
    rw [← String.toList_append]

/-- An argument that is read as the letter of an option spells it. -/
theorem spelledBy_of_short {letter : Char} {rest : List Char} (hword : Word.of arg = .short letter rest)
    (hflag : Flag.short? verb letter = some (.value field)) : field.SpelledBy arg := by
  refine .inr (.inr ⟨letter, Flag.letter?_eq hflag, rest, ?_⟩)
  rw [Word.eq_of_of_eq_short hword, String.toList_ofList]
  rfl

/-- No argument before the end of the options is an option for the field. -/
def AbsentFrom (field : Field) (args : List String) : Prop :=
  ∀ arg ∈ args.takeWhile (· ≠ "--"), ¬ field.SpelledBy arg

instance (field : Field) (args : List String) : Decidable (field.AbsentFrom args) :=
  inferInstanceAs (Decidable (∀ arg ∈ args.takeWhile (· ≠ "--"), ¬ field.SpelledBy arg))

/-- The two hyphens that end the options are no option. -/
theorem SpelledBy.ne_escape (h : field.SpelledBy arg) : arg ≠ "--" := by
  rintro rfl
  revert h
  cases field <;> decide

end Field

/-! ## One side of the command -/

namespace Given

/-- The options that are given, the one that was named last among them. -/
def fields (given : Given) : List Field :=
  (given.pending.map Prod.fst).toList ++ given.values.map Prod.fst

section Given

variable {given given' : Given} {field other : Field} {value : String}

/-- An option is given with a value that was looked at, or it was named last. -/
theorem mem_fields : field ∈ given.fields ↔
    (∃ value, given.pending = some (field, value)) ∨ field ∈ given.values.map Prod.fst := by
  rw [fields, List.mem_append, Option.mem_toList, Option.map_eq_some_iff]
  simp only [Prod.exists, exists_and_right, exists_eq_right]

/-- A value that goes through stands behind the others. -/
theorem put_cases (h : given.put field value = .ok given') :
    given' = { given with values := given.values ++ [(field, value)] } := by
  unfold put at h
  split at h
  · cases h
  · split at h
    · cases h
      rfl
    · cases h

/-- The value of the option that was named last goes behind the others, if there is such an option. -/
theorem settle_cases (h : given.settle = .ok given') :
    given.pending = none ∧ given' = given ∨
    ∃ field value, given.pending = some (field, some value) ∧
      given' = { given with values := given.values ++ [(field, value)], pending := none } := by
  unfold settle at h
  split at h
  · rename_i hpending
    cases h
    exact .inl ⟨hpending, rfl⟩
  · cases h
  · rename_i field value hpending
    exact .inr ⟨field, value, hpending, put_cases h⟩

/-- After the look at its value no option waits any more. -/
theorem pending_settle (h : given.settle = .ok given') : given'.pending = none := by
  rcases settle_cases h with ⟨hpending, rfl⟩ | ⟨field, value, -, rfl⟩
  · exact hpending
  · rfl

/-- Looking at a value neither adds an option nor takes one away. -/
theorem mem_fields_settle (h : given.settle = .ok given') : field ∈ given'.fields ↔ field ∈ given.fields := by
  rcases settle_cases h with ⟨-, rfl⟩ | ⟨other, value, hpending, rfl⟩
  · rfl
  · rw [mem_fields, mem_fields, hpending, List.map_append, List.mem_append, List.map_singleton, List.mem_singleton]
    constructor
    · rintro (⟨value, hvalue⟩ | hvalues | rfl)
      · cases hvalue
      · exact .inr hvalues
      · exact .inl ⟨_, rfl⟩
    · rintro (⟨value, hvalue⟩ | hvalues)
      · cases hvalue
        exact .inr (.inr rfl)
      · exact .inr (.inl hvalues)

/-- One more option adds itself. -/
theorem mem_fields_option {value : Option String} (h : given.option other value = .ok given') :
    field ∈ given'.fields ↔ field = other ∨ field ∈ given.fields := by
  obtain ⟨settled, hsettle, hlater⟩ := bind_eq_ok_iff.mp h
  rw [← mem_fields_settle hsettle]
  have hnone := pending_settle hsettle
  cases value with
  | none =>
    cases hlater
    rw [mem_fields, mem_fields, hnone]
    constructor
    · rintro (⟨value, hvalue⟩ | hvalues)
      · cases hvalue
        exact .inl rfl
      · exact .inr (.inr hvalues)
    · rintro (rfl | ⟨value, hvalue⟩ | hvalues)
      · exact .inl ⟨_, rfl⟩
      · cases hvalue
      · exact .inr hvalues
  | some value =>
    rw [put_cases hlater, mem_fields, mem_fields, hnone, List.map_append, List.mem_append, List.map_singleton,
      List.mem_singleton]
    simp only [or_comm, or_left_comm]

/-- An operand is no option. -/
theorem mem_fields_operand {text : String} (h : given.operand text = .ok given') :
    field ∈ given'.fields ↔ field ∈ given.fields := by
  obtain ⟨settled, hsettle, hlater⟩ := bind_eq_ok_iff.mp h
  cases hlater
  have hsame : field ∈ settled.fields ↔ field ∈ given.fields := mem_fields_settle hsettle
  exact hsame

/-- The option whose value comes next was named last. -/
theorem pending_of_awaits? (h : given.awaits? = some field) : given.pending = some (field, none) := by
  unfold awaits? at h
  split at h
  · rename_i hpending
    cases h
    exact hpending
  · cases h

/-- An option with a value is given. -/
theorem mem_fields_of_get? (h : given.get? field = some value) : field ∈ given.fields := by
  obtain ⟨front, back, hvalues, -⟩ := List.lookup_eq_some_iff.mp h
  rw [mem_fields, hvalues, List.map_append, List.mem_append]
  exact .inr (.inr List.mem_cons_self)

/-- An option that is not given has no value. -/
theorem get?_eq_none (h : field ∉ given.fields) : given.get? field = none :=
  Option.eq_none_iff_forall_ne_some.mpr fun _ hvalue => h (mem_fields_of_get? hvalue)

end Given

end Given

/-! ## One argument -/

namespace Reading

/-- The options that are given so far, on both sides of the command. -/
def fields (r : Reading) : List Field :=
  r.before.fields ++ r.behind.fields

section Step

variable {r r' : Reading} {arg : String} {field : Field}

/-- The options of the side that is being read are options of the command line. -/
theorem fields_subset (r : Reading) : r.given.fields ⊆ r.fields := by
  unfold given fields
  cases r.verb with
  | none => exact List.subset_append_left _ _
  | some verb => exact List.subset_append_right _ _

/-- Going on with a side changes the options of that side alone. -/
theorem mem_fields_resume {given : Given} {P : Prop} (h : field ∈ given.fields ↔ P ∨ field ∈ r.given.fields) :
    field ∈ (r.resume given).fields ↔ P ∨ field ∈ r.fields := by
  unfold Reading.given at h
  unfold resume fields
  cases hverb : r.verb with
  | none =>
    simp only [hverb] at h
    simp only [List.mem_append, h, or_assoc]
  | some verb =>
    simp only [hverb] at h
    simp only [List.mem_append, h, or_left_comm]

/-- What one argument can do: give an operand, name an option with its value or without, give the value that was waited
for, end the options, or name the command. -/
inductive Change (r : Reading) (arg : String) : Reading → Prop
  | operand {text : String} {given : Given} (verb : r.verb ≠ none) (settled : r.behind.operand text = .ok given) :
      Change r arg { r with behind := given }
  | option {field : Field} {value : Option String} {given : Given} (open_ : r.ended = false)
      (spelled : field.SpelledBy arg) (settled : r.given.option field value = .ok given) :
      Change r arg (r.resume given)
  | value {field : Field} (open_ : r.ended = false) (awaited : r.given.awaits? = some field) :
      Change r arg (r.resume { r.given with pending := some (field, some arg) })
  | escape (open_ : r.ended = false) (hyphens : arg = "--") : Change r arg { r with ended := true }
  | name {verb : Verb} (open_ : r.ended = false) (named : arg = Vocabulary.name verb) :
      Change r arg { r with verb := some verb }

/-- An operand goes behind the command. -/
theorem change_of_operand {text : String} (h : r.operand text = .ok r') : Change r arg r' := by
  unfold operand at h
  split at h
  · split at h <;> cases h
  · rename_i verb hverb
    split at h
    · obtain ⟨given, hgiven, hr⟩ := bind_eq_ok_iff.mp h
      cases hr
      exact .operand (by rw [hverb]; nofun) hgiven
    · cases h

/-- Only an option with a value is read on. -/
theorem change_of_option {flag : Flag} {value : Option String} (hopen : r.ended = false)
    (hspelled : ∀ field, flag = .value field → field.SpelledBy arg) (h : r.option flag value = .ok r') :
    Change r arg r' := by
  unfold option at h
  cases flag with
  | value field =>
    obtain ⟨given, hgiven, hr⟩ := bind_eq_ok_iff.mp h
    cases hr
    exact .option hopen (hspelled field rfl) hgiven
  | help =>
    obtain ⟨given, -, hr⟩ := bind_eq_ok_iff.mp h
    cases hr
  | version =>
    obtain ⟨given, -, hr⟩ := bind_eq_ok_iff.mp h
    cases hr

/-- A long name belongs to an option that the argument spells. -/
theorem change_of_long {name : String} {value : Option String} (hopen : r.ended = false)
    (hword : Word.of arg = .long name value) (h : r.long name value = .ok r') : Change r arg r' := by
  unfold long at h
  split at h
  · cases h
  · rename_i field hflag
    exact change_of_option hopen (fun _ heq => Field.spelledBy_of_long hword (heq ▸ hflag)) h
  · rename_i flag _ hflag
    exact change_of_option hopen (fun _ heq => Field.spelledBy_of_long hword (heq ▸ hflag)) h
  · cases h

/-- A letter belongs to an option that the argument spells. -/
theorem change_of_short {letter : Char} {rest : List Char} (hopen : r.ended = false)
    (hword : Word.of arg = .short letter rest) (h : r.short letter rest = .ok r') : Change r arg r' := by
  unfold short at h
  split at h
  · cases h
  · rename_i flag hflag
    exact change_of_option hopen (fun _ heq => Field.spelledBy_of_short hword (heq ▸ hflag)) h

/-- A word without a hyphen in front is a value, the command or an operand. -/
theorem change_of_plain (hopen : r.ended = false) (h : r.plain arg = .ok r') : Change r arg r' := by
  unfold plain at h
  split at h
  · rename_i field hawaits
    cases h
    exact .value hopen hawaits
  · split at h
    · rename_i verb _ hverb
      cases h
      exact .name hopen (Vocabulary.name_of_ofName? hverb).symm
    · exact change_of_operand h

/-- One argument does nothing else. -/
theorem change_of_step (h : r.step arg = .ok r') : Change r arg r' := by
  unfold step at h
  split at h
  · exact change_of_operand h
  rename_i hended
  have hopen : r.ended = false := by simpa using hended
  split at h
  · rename_i hword
    cases h
    exact .escape hopen (Word.of_eq_escape_iff.mp hword)
  · rename_i hword
    exact change_of_long hopen hword h
  · rename_i hword
    exact change_of_short hopen hword h
  · rename_i hword
    exact change_of_plain hopen (Word.eq_of_of_eq_plain hword ▸ h)

/-- The options after an argument are those before it, and the one that it spells if it is an option. -/
theorem Change.mem_fields (h : Change r arg r') :
    (∀ field, field ∈ r.fields → field ∈ r'.fields) ∧
    ∀ field, field ∈ r'.fields → field ∈ r.fields ∨ r.ended = false ∧ field.SpelledBy arg := by
  cases h with
  | operand verb settled =>
    rename_i text given
    have hsame (field : Field) : field ∈ r.fields ↔ field ∈ Reading.fields { r with behind := given } := by
      rw [fields, fields, List.mem_append, List.mem_append, Given.mem_fields_operand settled]
    exact ⟨fun field hfield => (hsame field).mp hfield, fun field hfield => .inl ((hsame field).mpr hfield)⟩
  | option hopen spelled settled =>
    rename_i other value given
    have hmem (field : Field) : field ∈ (r.resume given).fields ↔ field = other ∨ field ∈ r.fields :=
      mem_fields_resume (Given.mem_fields_option settled)
    refine ⟨fun field hfield => (hmem field).mpr (.inr hfield), fun field hfield => ?_⟩
    rcases (hmem field).mp hfield with rfl | hold
    · exact .inr ⟨hopen, spelled⟩
    · exact .inl hold
  | value hopen awaited =>
    rename_i other
    -- The option was named before, and only now has its value.
    have hpending := Given.pending_of_awaits? awaited
    have hmem (field : Field) :
        field ∈ (r.resume { r.given with pending := some (other, some arg) }).fields ↔ False ∨ field ∈ r.fields :=
      mem_fields_resume (by simp [Given.fields, hpending])
    exact ⟨fun field hfield => (hmem field).mpr (.inr hfield),
      fun field hfield => ((hmem field).mp hfield).elim False.elim .inl⟩
  | escape => exact ⟨fun _ h => h, fun _ h => .inl h⟩
  | name => exact ⟨fun _ h => h, fun _ h => .inl h⟩

/-- Going on with a side leaves the command and the end of the options alone. -/
theorem resume_eq (r : Reading) (given : Given) :
    (r.resume given).verb = r.verb ∧ (r.resume given).ended = r.ended := by
  unfold resume
  split <;> exact ⟨rfl, rfl⟩

/-- An option that is new was spelled by the argument. -/
theorem fields_step (h : r.step arg = .ok r') (hfield : field ∈ r'.fields) :
    field ∈ r.fields ∨ r.ended = false ∧ field.SpelledBy arg :=
  (change_of_step h).mem_fields.2 field hfield

/-- While options go on, no argument was the two hyphens. -/
theorem ended_step (h : r.step arg = .ok r') (hopen : r'.ended = false) : r.ended = false ∧ arg ≠ "--" := by
  have hbefore : r.ended = false := by
    cases change_of_step h with
    | operand => exact hopen
    | option open_ => exact open_
    | value open_ => exact open_
    | escape => cases hopen
    | name open_ => exact open_
  refine ⟨hbefore, ?_⟩
  rintro rfl
  have hword : Word.of "--" = .escape := Word.of_eq_escape_iff.mpr rfl
  rw [step, hbefore, if_neg Bool.false_ne_true, hword] at h
  cases h
  cases hopen

/-- The command is the one from before, or the argument names it. -/
theorem verb_step {verb : Verb} (h : r.step arg = .ok r') (hverb : r'.verb = some verb) :
    r.verb = some verb ∨ arg = Vocabulary.name verb := by
  cases change_of_step h with
  | operand => exact .inl hverb
  | option => exact .inl ((resume_eq r _).1 ▸ hverb)
  | value => exact .inl ((resume_eq r _).1 ▸ hverb)
  | escape => exact .inl hverb
  | name open_ hnamed =>
    cases hverb
    exact .inr hnamed

/-- A command that was named stays. -/
theorem verb_ne_none_step (h : r.step arg = .ok r') (hverb : r.verb ≠ none) : r'.verb ≠ none := by
  cases change_of_step h with
  | operand => exact hverb
  | option => exact (resume_eq r _).1 ▸ hverb
  | value => exact (resume_eq r _).1 ▸ hverb
  | escape => exact hverb
  | name => nofun

/-- Nothing stands behind a command that was not named. -/
theorem behind_step (h : r.step arg = .ok r') (hr : r.verb = none → r.behind = {}) (hverb : r'.verb = none) :
    r'.behind = {} := by
  have hresume (given : Given) (hnone : (r.resume given).verb = none) : (r.resume given).behind = {} := by
    rw [(resume_eq r given).1] at hnone
    rw [resume, hnone]
    exact hr hnone
  cases change_of_step h with
  | operand verb => exact absurd hverb verb
  | option => exact hresume _ hverb
  | value => exact hresume _ hverb
  | escape => exact hr hverb
  | name => cases hverb

end Step

/-! ## All arguments -/

section ReadAll

variable {r r' : Reading} {args : List String}

/-- The first argument is read, and then the others. -/
theorem readAll_cons {arg : String} (h : r.readAll (arg :: args) = .ok r') :
    ∃ next, r.step arg = .ok next ∧ next.readAll args = .ok r' := by
  rw [readAll] at h
  split at h
  · cases h
  · exact bind_eq_ok_iff.mp h

/-- Every option was spelled by an argument before the end of the options. -/
theorem fields_readAll {field : Field} (h : r.readAll args = .ok r') (hfield : field ∈ r'.fields) :
    field ∈ r.fields ∨ r.ended = false ∧ ∃ arg ∈ args.takeWhile (· ≠ "--"), field.SpelledBy arg := by
  induction args generalizing r with
  | nil =>
    cases h
    exact .inl hfield
  | cons arg args ih =>
    obtain ⟨next, hstep, hrest⟩ := readAll_cons h
    rcases ih hrest with hnext | ⟨hopen, other, hother, hspelled⟩
    · refine (fields_step hstep hnext).imp_right fun ⟨hopen, hspelled⟩ => ⟨hopen, arg, ?_, hspelled⟩
      rw [List.takeWhile_cons, if_pos (by simpa using hspelled.ne_escape)]
      exact List.mem_cons_self
    · obtain ⟨hopen', harg⟩ := ended_step hstep hopen
      refine .inr ⟨hopen', other, ?_, hspelled⟩
      rw [List.takeWhile_cons, if_pos (by simpa using harg)]
      exact List.mem_cons_of_mem arg hother

/-- The command is one of the arguments. -/
theorem verb_readAll {verb : Verb} (h : r.readAll args = .ok r') (hverb : r'.verb = some verb) :
    r.verb = some verb ∨ Vocabulary.name verb ∈ args := by
  induction args generalizing r with
  | nil =>
    cases h
    exact .inl hverb
  | cons arg args ih =>
    obtain ⟨next, hstep, hrest⟩ := readAll_cons h
    rcases ih hrest with hnext | hmem
    · rcases verb_step hstep hnext with hold | harg
      · exact .inl hold
      · exact .inr (harg ▸ List.mem_cons_self)
    · exact .inr (List.mem_cons_of_mem arg hmem)

/-- Options and the command stay once they are there. -/
theorem stay_readAll (h : r.readAll args = .ok r') :
    (∀ field, field ∈ r.fields → field ∈ r'.fields) ∧ (r.verb ≠ none → r'.verb ≠ none) := by
  induction args generalizing r with
  | nil =>
    cases h
    exact ⟨fun _ h => h, fun h => h⟩
  | cons arg args ih =>
    obtain ⟨next, hstep, hrest⟩ := readAll_cons h
    obtain ⟨hfields, hverb⟩ := ih hrest
    exact ⟨fun field hfield => hfields field ((change_of_step hstep).mem_fields.1 field hfield),
      fun hr => hverb (verb_ne_none_step hstep hr)⟩

/-- Without a command all options stand before it. -/
theorem behind_readAll (h : r.readAll args = .ok r') (hr : r.verb = none → r.behind = {}) (hverb : r'.verb = none) :
    r'.behind = {} := by
  induction args generalizing r with
  | nil =>
    cases h
    exact hr hverb
  | cons arg args ih =>
    obtain ⟨next, hstep, hrest⟩ := readAll_cons h
    exact ih hrest (behind_step hstep hr)

/-- A command line without a command and without options is empty, or it is the two hyphens alone. -/
theorem bare_of_readAll (h : r.readAll args = .ok r') (hverb : r'.verb = none) (hfields : r'.fields = []) :
    args = [] ∨ r.ended = false ∧ args = ["--"] := by
  induction args generalizing r with
  | nil => exact .inl rfl
  | cons arg args ih =>
    obtain ⟨next, hstep, hrest⟩ := readAll_cons h
    obtain ⟨hstay, hstayVerb⟩ := stay_readAll hrest
    have hnone (field : Field) : field ∉ next.fields := by
      intro hfield
      have hmem := hstay field hfield
      rw [hfields] at hmem
      cases hmem
    cases change_of_step hstep with
    | operand verb settled => exact absurd hverb (hstayVerb verb)
    | option open_ spelled settled =>
      exact absurd ((mem_fields_resume (Given.mem_fields_option settled)).mpr (.inl rfl)) (hnone _)
    | value open_ awaited =>
      have hnamed := fields_subset r (Given.mem_fields.mpr (.inl ⟨_, Given.pending_of_awaits? awaited⟩))
      exact absurd ((change_of_step hstep).mem_fields.1 _ hnamed) (hnone _)
    | escape open_ hyphens =>
      rcases ih hrest with rfl | ⟨hended, -⟩
      · exact .inr ⟨open_, by rw [hyphens]⟩
      · cases hended
    | name => exact absurd hverb (hstayVerb nofun)

end ReadAll

end Reading

/-! ## The invocation -/

namespace Invocation

variable {args : List String} {invocation : Invocation}

/-- A command line that is carried out was read to its end. -/
theorem exists_reading_of_parse (h : parse args = .ok invocation) :
    ∃ r, Reading.readAll {} args = .ok r ∧ ofReading r = .ok invocation :=
  bind_eq_ok_iff.mp h

/-- The request comes from what stands behind the command, and the options for all commands from both sides of it. -/
theorem ofReading_cases {r : Reading} (h : ofReading r = .ok invocation) :
    ∃ verb before behind, r.verb = some verb ∧ r.before.settle = .ok before ∧ r.behind.settle = .ok behind ∧
      request? verb behind = some invocation.request ∧
      invocation.format = (shared? before behind .format).bind OutputFormat.ofText? ∧
      invocation.config = shared? before behind .config := by
  unfold ofReading at h
  split at h
  · obtain ⟨before, -, hthrow⟩ := bind_eq_ok_iff.mp h
    split at hthrow <;> cases hthrow
  · rename_i verb hverb
    obtain ⟨behind, hbehind, hlater⟩ := bind_eq_ok_iff.mp h
    split at hlater
    · cases hlater
    · rename_i request hrequest
      obtain ⟨before, hbefore, hinvocation⟩ := bind_eq_ok_iff.mp hlater
      cases hinvocation
      exact ⟨verb, before, behind, hverb, hbefore, hbehind, hrequest, rfl, rfl⟩

/-- An option that no argument spells has no value on either side of the command. -/
theorem shared?_eq_none {r : Reading} {before behind : Given} {field : Field} (h : field ∉ r.fields)
    (hbefore : r.before.settle = .ok before) (hbehind : r.behind.settle = .ok behind) :
    shared? before behind field = none := by
  rw [Reading.fields, List.mem_append, not_or, ← Given.mem_fields_settle hbefore,
    ← Given.mem_fields_settle hbehind] at h
  rw [shared?, Given.get?_eq_none h.1, Given.get?_eq_none h.2]
  rfl

/-- Options that the arguments do not spell are not given. -/
theorem not_mem_fields {r : Reading} {field : Field} (hargs : field.AbsentFrom args)
    (hread : Reading.readAll {} args = .ok r) : field ∉ r.fields := by
  intro hmem
  rcases Reading.fields_readAll hread hmem with hnone | ⟨-, arg, harg, hspelled⟩
  · cases hnone
  · exact hargs arg harg hspelled

/-- A command line without an option for the configuration asks for none. -/
theorem config_eq_none (hargs : Field.config.AbsentFrom args) (h : parse args = .ok invocation) :
    invocation.config = none := by
  obtain ⟨r, hread, hr⟩ := exists_reading_of_parse h
  obtain ⟨_, before, behind, -, hbefore, hbehind, -, -, hconfig⟩ := ofReading_cases hr
  rw [hconfig, shared?_eq_none (not_mem_fields hargs hread) hbefore hbehind]

end Invocation

end MetricQuery
