import MetricQuery.Proofs.ArgumentReading

/-!
# An option at the head of a command line

The options for the output format and the configuration can be put at the head of any command line that does not have
them yet. The rest is then read as before, and the option is given, `Invocation.parse_leading`. The one exception is a
command line with nothing in it: by itself it asks for nothing, and behind an option it lacks a command.

The two command lines are read side by side, `Reading.Led`. They differ in the options before the command: the value of
the first one waits to be looked at, as long as nothing else is read, or stands at the head of the others. Each step
keeps them in this relation, or fails for both with the same fault, `Reading.alike_step`.
-/

set_option autoImplicit false

namespace MetricQuery

/-- Two results that fail with the same fault, or are in a relation. -/
inductive Alike {ε α β : Type} (R : α → β → Prop) : Except ε α → Except ε β → Prop
  | ok {a : α} {b : β} (related : R a b) : Alike R (.ok a) (.ok b)
  | error (fault : ε) : Alike R (.error fault) (.error fault)

namespace Alike

variable {ε α β α' β' : Type} {R : α → β → Prop} {S : α' → β' → Prop}

/-- What fails on one side fails on the other. -/
theorem eq_error {x : Except ε α} {fault : ε} (h : Alike R x (.error fault : Except ε β)) : x = .error fault := by
  cases h
  rfl

/-- What goes through on one side goes through on the other, with a related result. -/
theorem exists_ok {x : Except ε α} {b : β} (h : Alike R x (.ok b)) : ∃ a, x = .ok a ∧ R a b := by
  cases h with
  | ok related => exact ⟨_, rfl, related⟩

/-- Steps that are alike from related results make results alike. -/
theorem bind {x : Except ε α} {y : Except ε β} {f : α → Except ε α'} {g : β → Except ε β'} (h : Alike R x y)
    (hnext : ∀ a b, y = .ok b → R a b → Alike S (f a) (g b)) : Alike S (x >>= f) (y >>= g) := by
  cases h with
  | ok related => exact hnext _ _ rfl related
  | error fault => exact .error fault

/-- A step that both take is alike for both. -/
theorem bind_same {x : Except ε α} {f : α → Except ε α'} {g : α → Except ε β'}
    (hnext : ∀ a, Alike S (f a) (g a)) : Alike S (x >>= f) (x >>= g) := by
  cases x with
  | ok a => exact hnext a
  | error fault => exact .error fault

end Alike

/-! ## The side before the command -/

namespace Given

/-- The options before a command with one more at their head, whose value waits or has been looked at. -/
inductive Led (field : Field) (value : String) : Given → Given → Prop
  | waiting : Led field value { pending := some (field, some value) } {}
  | read (given : Given) : Led field value { given with values := (field, value) :: given.values } given

section Led

variable {field other : Field} {value text : String} {a b : Given}

/-- Neither waits for a value unless the other does. -/
theorem Led.awaits?_eq (h : Led field value a b) : a.awaits? = b.awaits? := by
  cases h <;> rfl

/-- Another option goes behind the first in the same way. -/
theorem put_cons (h : other ≠ field) :
    Given.put { b with values := (field, value) :: b.values } other text =
      (b.put other text).map fun given => { given with values := (field, value) :: given.values } := by
  have hne : (other == field) = false := by simpa using h
  have hget : Given.get? { b with values := (field, value) :: b.values } other = b.get? other := by
    rw [Given.get?, List.lookup_cons, hne]
    rfl
  unfold Given.put
  rw [hget]
  split
  · rfl
  · split <;> rfl

/-- So the options that it goes behind stay in the relation. -/
theorem alike_put (h : other ≠ field) :
    Alike (Led field value) (Given.put { b with values := (field, value) :: b.values } other text)
      (b.put other text) := by
  rw [put_cons h]
  cases b.put other text with
  | ok given => exact .ok (.read given)
  | error fault => exact .error fault

/-- When values are looked at, that of the first option is accepted and all others are as before. -/
theorem Led.alike_settle (haccepts : field.accepts value = true) (hnew : field ∉ b.fields) (h : Led field value a b) :
    Alike (fun a b => a = { b with values := (field, value) :: b.values }) a.settle b.settle := by
  cases h with
  | waiting =>
    have hput : Given.settle { pending := some (field, some value) } = .ok { values := [(field, value)] } := by
      simp [Given.settle, Given.put, Given.get?, haccepts]
    rw [hput]
    exact .ok rfl
  | read =>
    cases hpending : b.pending with
    | none =>
      simp only [Given.settle, hpending]
      exact .ok (by rw [hpending])
    | some named =>
      obtain ⟨other, last⟩ := named
      cases last with
      | none =>
        simp only [Given.settle, hpending]
        exact .error _
      | some text =>
        have hne : other ≠ field := by
          rintro rfl
          exact hnew (mem_fields.mpr (.inl ⟨_, hpending⟩))
        simp only [Given.settle, hpending]
        have hput : Given.put { values := (field, value) :: b.values, operands := b.operands } other text = _ :=
          put_cons (b := { b with pending := none }) hne
        rw [hput]
        cases Given.put { b with pending := none } other text with
        | ok given => exact .ok rfl
        | error fault => exact .error fault

/-- Another option is added in the same way. -/
theorem Led.alike_option (haccepts : field.accepts value = true) (hnew : field ∉ b.fields) (hne : other ≠ field)
    (h : Led field value a b) (text : Option String) :
    Alike (Led field value) (a.option other text) (b.option other text) := by
  refine (h.alike_settle haccepts hnew).bind fun a b _ hab => ?_
  subst hab
  cases text with
  | some text => exact alike_put hne
  | none => exact .ok (.read { b with pending := some (other, none) })

end Led

end Given

/-! ## One argument -/

namespace Reading

/-- Two command lines, the first with one more option at its head. -/
def Led (field : Field) (value : String) (a b : Reading) : Prop :=
  ∃ before, Given.Led field value before b.before ∧ a = { b with before }

section Led

variable {field : Field} {value arg : String} {a b : Reading}

/-- Operands go behind the command, where both are the same. -/
theorem alike_operand (h : Led field value a b) (text : String) :
    Alike (Led field value) (a.operand text) (b.operand text) := by
  obtain ⟨before, hbefore, rfl⟩ := h
  unfold operand
  cases b.verb with
  | none =>
    dsimp only
    split <;> exact .error _
  | some verb =>
    dsimp only
    split
    · exact Alike.bind_same fun given => .ok ⟨before, hbefore, rfl⟩
    · exact .error _

/-- Options other than the first are read in the same way. -/
theorem alike_option (haccepts : field.accepts value = true) (hnew : field ∉ b.fields) (h : Led field value a b)
    {flag : Flag} (hne : flag ≠ .value field) (text : Option String) :
    Alike (Led field value) (a.option flag text) (b.option flag text) := by
  obtain ⟨before, hbefore, rfl⟩ := h
  have hnew' : field ∉ b.before.fields := fun hmem => hnew (List.mem_append_left _ hmem)
  unfold option
  cases hverb : b.verb with
  | none =>
    simp only [given, resume, hverb]
    cases flag with
    | value other =>
      have hother : other ≠ field := fun heq => hne (by rw [heq])
      exact (hbefore.alike_option haccepts hnew' hother text).bind fun before' given _ hled =>
        .ok ⟨before', hled, rfl⟩
    | help => exact (hbefore.alike_settle haccepts hnew').bind fun _ _ _ _ => .error _
    | version => exact (hbefore.alike_settle haccepts hnew').bind fun _ _ _ _ => .error _
  | some verb =>
    simp only [given, resume, hverb]
    cases flag with
    | value other => exact Alike.bind_same fun given => .ok ⟨before, hbefore, rfl⟩
    | help => exact Alike.bind_same fun _ => .error _
    | version => exact Alike.bind_same fun _ => .error _

/-- Both go on to wait for the same value. -/
theorem Led.awaits?_eq (h : Led field value a b) : a.given.awaits? = b.given.awaits? := by
  obtain ⟨before, hbefore, rfl⟩ := h
  unfold given
  cases b.verb with
  | none => exact hbefore.awaits?_eq
  | some verb => rfl

/-- A value that is waited for is taken in the same way, and so are the command and operands. -/
theorem alike_plain (h : Led field value a b) (text : String) :
    Alike (Led field value) (a.plain text) (b.plain text) := by
  unfold plain
  rw [h.awaits?_eq]
  have hoperand := alike_operand h text
  obtain ⟨before, hbefore, rfl⟩ := h
  split
  · rename_i other hawaits
    refine .ok ?_
    unfold given resume
    unfold given at hawaits
    cases hverb : b.verb with
    | none =>
      simp only [hverb] at hawaits ⊢
      generalize b.before = given at hbefore hawaits
      cases hbefore with
      | waiting => exact absurd (Given.pending_of_awaits? hawaits) nofun
      | read => exact ⟨_, .read _, rfl⟩
    | some verb => exact ⟨before, hbefore, rfl⟩
  · dsimp only
    split
    · exact .ok ⟨before, hbefore, rfl⟩
    · exact hoperand

/-- One argument that is no further option for the field. -/
theorem alike_step (haccepts : field.accepts value = true) (hnew : field ∉ b.fields)
    (harg : b.ended = false → ¬ field.SpelledBy arg) (h : Led field value a b) :
    Alike (Led field value) (a.step arg) (b.step arg) := by
  have hoperand := alike_operand h arg
  have hplain := alike_plain h
  have hoption {flag : Flag} (hne : flag ≠ .value field) (text : Option String) :=
    alike_option haccepts hnew h hne text
  obtain ⟨before, hbefore, rfl⟩ := h
  unfold step
  dsimp only
  split
  · exact hoperand
  rename_i hended
  have hspelled := harg (by simpa using hended)
  split
  · exact .ok ⟨before, hbefore, rfl⟩
  · rename_i name text hword
    unfold long
    dsimp only
    split
    · exact .error _
    · rename_i other hflag
      refine hoption (fun heq => hspelled ?_) _
      exact Field.spelledBy_of_long hword (heq ▸ hflag)
    · rename_i flag hvalue hflag
      exact hoption (fun heq => hvalue field heq) none
    · exact .error _
  · rename_i letter rest hword
    unfold short
    dsimp only
    split
    · exact .error _
    · rename_i flag hflag
      refine hoption (fun heq => hspelled ?_) _
      exact Field.spelledBy_of_short hword (heq ▸ hflag)
  · exact hplain _

/-! ## All arguments -/

/-- The rest of a command line has no option for the field, unless the options have ended. -/
def Without (field : Field) (r : Reading) (args : List String) : Prop :=
  r.ended = false → field.AbsentFrom args

/-- The first argument is no option for the field. -/
theorem Without.head {r : Reading} {args : List String} (h : Without field r (arg :: args)) (hended : r.ended = false) :
    ¬ field.SpelledBy arg := by
  intro hspelled
  refine h hended arg ?_ hspelled
  rw [List.takeWhile_cons, if_pos (by simpa using hspelled.ne_escape)]
  exact List.mem_cons_self

/-- The arguments behind the first have no option for the field either. -/
theorem Without.tail {r next : Reading} {args : List String} (h : Without field r (arg :: args))
    (hstep : r.step arg = .ok next) : Without field next args := by
  intro hended other hother
  obtain ⟨hopen, harg⟩ := ended_step hstep hended
  refine h hopen other ?_
  rw [List.takeWhile_cons, if_pos (by simpa using harg)]
  exact List.mem_cons_of_mem arg hother

/-- A command line is read in the same way with one more option at its head. -/
theorem alike_readAll {args : List String} (haccepts : field.accepts value = true) (hnew : field ∉ b.fields)
    (hargs : Without field b args) (h : Led field value a b) :
    Alike (Led field value) (a.readAll args) (b.readAll args) := by
  induction args generalizing a b with
  | nil => exact .ok h
  | cons arg args ih =>
    have hhelp : a.asksForHelp arg = b.asksForHelp arg := by
      obtain ⟨before, hbefore, rfl⟩ := h
      simp only [asksForHelp, hbefore.awaits?_eq]
    rw [readAll, readAll, hhelp]
    split
    · exact .error _
    refine (alike_step haccepts hnew hargs.head h).bind fun _ next hnext related => ?_
    refine ih (fun hmem => ?_) (hargs.tail hnext) related
    rcases fields_step hnext hmem with hbefore | ⟨hopen, hspelled⟩
    · exact hnew hbefore
    · exact hargs.head hopen hspelled

end Led

end Reading

/-! ## The invocation -/

namespace Invocation

variable {field : Field} {value : String}

/-- An invocation with one more option for all commands. -/
def withOption (invocation : Invocation) (field : Field) (value : String) : Invocation :=
  match field with
  | .format => { invocation with format := OutputFormat.ofText? value }
  | .config => { invocation with config := some value }
  | _ => invocation

/-- The option that was put at the head is given, and all others as before. -/
theorem shared?_cons {before behind : Given} {other : Field} (hbehind : behind.get? field = none) :
    shared? { before with values := (field, value) :: before.values } behind other =
      if other = field then some value else shared? before behind other := by
  split
  · rename_i heq
    subst heq
    rw [shared?, hbehind, Given.get?, List.lookup_cons, beq_self_eq_true]
    rfl
  · rename_i hne
    have hother : (other == field) = false := by simpa using hne
    rw [shared?, Given.get?, Given.get?, List.lookup_cons, hother]
    rfl

/-- Options that were named and looked at are there with their values. -/
theorem values_ne_nil_of_settle {given given' : Given} (h : given.settle = .ok given') (hfields : given.fields ≠ []) :
    given'.values ≠ [] := by
  intro hvalues
  apply hfields
  rw [List.eq_nil_iff_forall_not_mem]
  intro field hmem
  rw [← Given.mem_fields_settle h, Given.fields, Given.pending_settle h, hvalues] at hmem
  cases hmem

/-- A complete command line with something in it comes to the same with one more option at its head. -/
theorem ofReading_led {a b : Reading} (hfield : field = .format ∨ field = .config)
    (haccepts : field.accepts value = true) (hnew : field ∉ b.fields) (hsome : b.verb = none → b.before.fields ≠ [])
    (h : Reading.Led field value a b) :
    ofReading a = (ofReading b).map fun invocation => invocation.withOption field value := by
  obtain ⟨before, hbefore, rfl⟩ := h
  rw [Reading.fields, List.mem_append, not_or] at hnew
  have hsettle := hbefore.alike_settle haccepts hnew.1
  unfold ofReading
  dsimp only
  cases hverb : b.verb with
  | none =>
    -- Both lack a command, since neither is empty.
    cases hb : b.before.settle with
    | error fault =>
      rw [hb] at hsettle
      rw [hsettle.eq_error]
      rfl
    | ok given =>
      rw [hb] at hsettle
      obtain ⟨_, hled, rfl⟩ := hsettle.exists_ok
      rw [hled]
      simp [bind, Except.bind, Except.map, values_ne_nil_of_settle hb (hsome hverb), throw, throwThe,
        MonadExceptOf.throw]
  | some verb =>
    cases hbehind : b.behind.settle with
    | error fault => rfl
    | ok behind =>
      have hget : behind.get? field = none :=
        Given.get?_eq_none fun hmem => hnew.2 ((Given.mem_fields_settle hbehind).mp hmem)
      simp only [bind, Except.bind]
      cases request? verb behind with
      | none => rfl
      | some request =>
        cases hb : b.before.settle with
        | error fault =>
          rw [hb] at hsettle
          rw [hsettle.eq_error]
          rfl
        | ok given =>
          rw [hb] at hsettle
          obtain ⟨_, hled, rfl⟩ := hsettle.exists_ok
          rw [hled]
          simp only [shared?_cons hget]
          rcases hfield with rfl | rfl <;> rfl

variable {args : List String}

/-- The option and its value are read first. -/
theorem readAll_cons_cons (hfield : field = .format ∨ field = .config) (hhyphen : value.toList.head? ≠ some '-') :
    Reading.readAll {} (("--" ++ field.longName) :: value :: args) =
      Reading.readAll { before := { pending := some (field, some value) } } args := by
  have hoption : Reading.step {} ("--" ++ field.longName) = .ok { before := { pending := some (field, none) } } := by
    rcases hfield with rfl | rfl <;> rfl
  have hvalue : Reading.step { before := { pending := some (field, none) } } value =
      .ok { before := { pending := some (field, some value) } } := by
    rw [Reading.step, if_neg Bool.false_ne_true, Word.of_of_head?_ne hhyphen]
    rfl
  have hhelp : Reading.asksForHelp {} ("--" ++ field.longName) = false := by
    rcases hfield with rfl | rfl <;> rfl
  rw [Reading.readAll, hhelp, hoption, if_neg Bool.false_ne_true]
  change Reading.readAll { before := { pending := some (field, none) } } (value :: args) = _
  rw [Reading.readAll, hvalue]
  rfl

/-- An option for all commands at the head of a command line that does not have it yet, and that has something in it,
changes nothing else: it is refused for the same reason, or it is carried out with the option. -/
theorem parse_leading (hfield : field = .format ∨ field = .config) (haccepts : field.accepts value = true)
    (hhyphen : value.toList.head? ≠ some '-') (hargs : field.AbsentFrom args) (hnil : args ≠ [])
    (hescape : args ≠ ["--"]) :
    parse (("--" ++ field.longName) :: value :: args) =
      (parse args).map fun invocation => invocation.withOption field value := by
  have hread : Alike (Reading.Led field value)
      (Reading.readAll { before := { pending := some (field, some value) } } args) (Reading.readAll {} args) :=
    Reading.alike_readAll haccepts nofun (fun _ => hargs) ⟨{ pending := some (field, some value) }, .waiting, rfl⟩
  rw [parse, parse, readAll_cons_cons hfield hhyphen]
  cases hb : Reading.readAll {} args with
  | error fault =>
    rw [hb] at hread
    rw [hread.eq_error]
    rfl
  | ok b =>
    rw [hb] at hread
    obtain ⟨a, ha, hled⟩ := hread.exists_ok
    rw [ha]
    refine ofReading_led hfield haccepts (not_mem_fields hargs hb) (fun hverb hfields => ?_) hled
    have hbehind := Reading.behind_readAll hb (fun _ => rfl) hverb
    have hnone : b.fields = [] := by
      rw [Reading.fields, hfields, hbehind]
      rfl
    rcases Reading.bare_of_readAll hb hverb hnone with hempty | ⟨-, hhyphens⟩
    · exact hnil hempty
    · exact hescape hhyphens

end Invocation

end MetricQuery
