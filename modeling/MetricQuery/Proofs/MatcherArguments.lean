import MetricQuery.Command.Label
import MetricQuery.Proofs.Scanning
import Mathlib.Data.List.TakeWhile

/-!
# What arguments are matchers

An argument is a matcher when it can be split into a name, an operator and a value. `Splits` says how: nothing before
the operator can start one, and the operator is the longest that stands there. Such a split is unique,
`Splits.unique`, and `Matcher.ofArgument` finds it whenever there is one and the name has more to it than white space,
`Matcher.ofArgument_eq_ok_iff`. So a name, an operator and a value that are put together are taken apart again, unless
the value goes on with the operator. White space is said to be cut off by what stands around it, `Text.Trims`, and not
by how it is found.
-/

set_option autoImplicit false

namespace MetricQuery

/-! ## White space around a text -/

namespace Text

/-- No white space stands at the ends of a text. -/
structure Bare (text : List Char) : Prop where
  first : ∀ c ∈ text.head?, isBlank c = false
  last : ∀ c ∈ text.getLast?, isBlank c = false

/-- A text is another one with white space around it. -/
structure Trims (text core : List Char) : Prop where
  around : ∃ before after, text = before ++ core ++ after ∧ (∀ c ∈ before, isBlank c = true) ∧
    ∀ c ∈ after, isBlank c = true
  bare : Bare core

variable {text core : List Char}

/-- A text without the white space before it does not begin with any. -/
theorem stops_trimLeft (text : List Char) : Stops isBlank (trimLeft text) := by
  intro c hc
  have hhead := List.head?_dropWhile_not isBlank text
  rw [trimLeft] at hc
  rw [Option.mem_def.mp hc] at hhead
  exact hhead

/-- What is trimmed at the left is white space. -/
theorem exists_blanks_append_trimLeft (text : List Char) :
    ∃ blanks, text = blanks ++ trimLeft text ∧ ∀ c ∈ blanks, isBlank c = true :=
  ⟨text.takeWhile isBlank, List.takeWhile_append_dropWhile.symm, fun _ => List.mem_takeWhile_imp⟩

/-- Of a text of white space nothing is left. -/
theorem trimLeft_of_blank (h : ∀ c ∈ text, isBlank c = true) : trimLeft text = [] :=
  List.dropWhile_eq_nil_iff.mpr h

/-- Cutting off white space leaves the text that it stands around. -/
theorem trims_trim (text : List Char) : Trims text (trim text) := by
  obtain ⟨before, hbefore, hblank⟩ := exists_blanks_append_trimLeft text
  obtain ⟨after, hafter, hblank'⟩ := exists_blanks_append_trimLeft (trimLeft text).reverse
  have hsplit : trimLeft text = trim text ++ after.reverse := by
    rw [trim, ← List.reverse_append, ← hafter, List.reverse_reverse]
  refine ⟨⟨before, after.reverse, ?_, hblank, fun c hc => hblank' c (List.mem_reverse.mp hc)⟩, ?_, ?_⟩
  · rw [List.append_assoc, ← hsplit, ← hbefore]
  · intro c hc
    apply stops_trimLeft text c
    rw [hsplit, List.head?_append, Option.mem_def.mp hc]
    rfl
  · intro c hc
    rw [trim, List.getLast?_reverse] at hc
    exact stops_trimLeft _ c hc

/-- There is no other text that white space stands around. -/
theorem Trims.trim_eq (h : Trims text core) : trim text = core := by
  obtain ⟨⟨before, after, rfl, hbefore, hafter⟩, hfirst, hlast⟩ := h
  have hlast' : Stops isBlank core.reverse := by
    intro c hc
    rw [List.head?_reverse] at hc
    exact hlast c hc
  cases core with
  | nil =>
    have hall : ∀ c ∈ before ++ [] ++ after, isBlank c = true := by
      rw [List.append_nil]
      exact List.forall_mem_append.mpr ⟨hbefore, hafter⟩
    rw [trim, trimLeft_of_blank hall]
    rfl
  | cons c core =>
    have hleft : trimLeft (before ++ (c :: core) ++ after) = c :: core ++ after := by
      rw [List.append_assoc]
      exact dropWhile_append_of_stops hbefore (stops_cons.mpr (hfirst c rfl))
    have hright : trimLeft (c :: core ++ after).reverse = (c :: core).reverse := by
      rw [List.reverse_append]
      exact dropWhile_append_of_stops (fun d hd => hafter d (List.mem_reverse.mp hd)) hlast'
    rw [trim, hleft, hright, List.reverse_reverse]

/-- What is no white space is not cut off. -/
theorem Trims.mem_core {c : Char} (h : Trims text core) (hc : c ∈ text)
    (hblank : isBlank c = false) : c ∈ core := by
  obtain ⟨⟨before, after, rfl, hbefore, hafter⟩, -⟩ := h
  rw [List.mem_append, List.mem_append] at hc
  rcases hc with (hc | hc) | hc
  · exact absurd (hbefore c hc) (by simp [hblank])
  · exact hc
  · exact absurd (hafter c hc) (by simp [hblank])

/-- A text with no white space around it is trimmed as it is. -/
theorem Bare.trims (h : Bare text) : Trims text text :=
  ⟨⟨[], [], by simp, nofun, nofun⟩, h⟩

end Text

/-! ## Splitting at the operator -/

/-- An argument is made up of what stands before its first operator, the operator, and a value. -/
structure Splits (argument before : List Char) (op : MatchOp) (value : List Char) : Prop where
  parts : argument = before ++ op.symbol.toList ++ value
  free : ∀ c ∈ before, c ≠ '=' ∧ c ≠ '!'
  /-- An equals sign with a tilde behind it is another operator. -/
  longest : op = .equal → value.head? ≠ some '~'

/-- The operator at the head of a text is the one that the text begins with, as long as it goes. -/
theorem splitOperator?_eq_some_iff {text value : List Char} {op : MatchOp} :
    splitOperator? text = some (op, value) ↔
      text = op.symbol.toList ++ value ∧ (op = .equal → value.head? ≠ some '~') := by
  constructor
  · intro h
    unfold splitOperator? at h
    split at h
    · cases h
      exact ⟨rfl, nofun⟩
    · cases h
      exact ⟨rfl, nofun⟩
    · cases h
      exact ⟨rfl, nofun⟩
    · rename_i rest htilde
      cases h
      refine ⟨rfl, fun _ hhead => ?_⟩
      obtain ⟨rest, rfl⟩ := List.head?_eq_some_iff.mp hhead
      exact htilde rest rfl
    · cases h
  · rintro ⟨rfl, hlongest⟩
    cases op with
    | notEqual => rfl
    | regexp => rfl
    | notRegexp => rfl
    | equal =>
      have hhead := hlongest rfl
      cases value with
      | nil => rfl
      | cons c value =>
        have hc : c ≠ '~' := fun hc => hhead (hc ▸ rfl)
        change splitOperator? ('=' :: c :: value) = _
        unfold splitOperator?
        split <;> simp_all

/-- Every operator begins with a character that ends the name. -/
theorem stops_symbol (op : MatchOp) (value : List Char) :
    Stops (fun c => !startsOperator c) (op.symbol.toList ++ value) := by
  cases op <;> exact stops_cons.mpr rfl

/-- An operator starts with an equals sign or an exclamation mark. -/
theorem not_startsOperator_iff {c : Char} : (!startsOperator c) = true ↔ c ≠ '=' ∧ c ≠ '!' := by
  simp [startsOperator]

namespace Splits

variable {argument before before' value value' : List Char} {op op' : MatchOp}

/-- A name ends where the operator starts. -/
theorem takeWhile_eq (h : Splits argument before op value) :
    argument.takeWhile (fun c => !startsOperator c) = before := by
  rw [h.parts, List.append_assoc]
  exact takeWhile_append_of_stops (fun c hc => not_startsOperator_iff.mpr (h.free c hc)) (stops_symbol op value)

/-- What follows the name is the operator and the value. -/
theorem dropWhile_eq (h : Splits argument before op value) :
    argument.dropWhile (fun c => !startsOperator c) = op.symbol.toList ++ value := by
  rw [h.parts, List.append_assoc]
  exact dropWhile_append_of_stops (fun c hc => not_startsOperator_iff.mpr (h.free c hc)) (stops_symbol op value)

/-- The operator is read up to the value. -/
theorem splitOperator?_eq (h : Splits argument before op value) :
    splitOperator? (op.symbol.toList ++ value) = some (op, value) :=
  splitOperator?_eq_some_iff.mpr ⟨rfl, h.longest⟩

/-- An argument is split in one way at most. -/
theorem unique (h : Splits argument before op value) (h' : Splits argument before' op' value') :
    before = before' ∧ op = op' ∧ value = value' := by
  refine ⟨h.takeWhile_eq.symm.trans h'.takeWhile_eq, ?_⟩
  have hrest : op.symbol.toList ++ value = op'.symbol.toList ++ value' := h.dropWhile_eq.symm.trans h'.dropWhile_eq
  have hread := h.splitOperator?_eq
  rw [hrest, h'.splitOperator?_eq] at hread
  simpa using (Option.some.inj hread).symm

end Splits

/-- What is found in an argument is a split of it. -/
theorem splits_of_splitOperator? {argument value : List Char} {op : MatchOp}
    (h : splitOperator? (argument.dropWhile fun c => !startsOperator c) = some (op, value)) :
    Splits argument (argument.takeWhile fun c => !startsOperator c) op value := by
  obtain ⟨hrest, hlongest⟩ := splitOperator?_eq_some_iff.mp h
  refine ⟨?_, fun c hc => ?_, hlongest⟩
  · rw [List.append_assoc, ← hrest, List.takeWhile_append_dropWhile]
  · have hclass := List.mem_takeWhile_imp hc
    exact not_startsOperator_iff.mp hclass

namespace Matcher

/-- An argument that splits is a matcher, if its name is one. -/
theorem ofArgument_of_splits {argument before name value : List Char} {op : MatchOp}
    (h : Splits argument before op value) (hname : Text.Trims before name) (hne : name ≠ []) :
    ofArgument argument = .ok ⟨String.ofList name, String.ofList value, op⟩ := by
  obtain ⟨c, rest, hrest⟩ : ∃ c rest, op.symbol.toList ++ value = c :: rest := by
    cases op <;> exact ⟨_, _, rfl⟩
  obtain ⟨d, others, rfl⟩ := List.exists_cons_of_ne_nil hne
  have hread := h.splitOperator?_eq
  unfold ofArgument
  rw [h.dropWhile_eq, h.takeWhile_eq, hname.trim_eq, hrest]
  rw [hrest] at hread
  simp only [hread]

/-- The matcher of an argument comes from a split of it. -/
theorem exists_splits_of_ofArgument {argument : List Char} {m : Matcher} (h : ofArgument argument = .ok m) :
    ∃ before, Splits argument before m.op m.value.toList ∧ Text.Trims before m.name.toList ∧ m.name ≠ "" := by
  unfold ofArgument at h
  split at h
  · cases h
  · split at h
    · cases h
    · rename_i op value hsplit
      split at h
      · cases h
      · rename_i hempty
        cases h
        refine ⟨argument.takeWhile fun c => !startsOperator c, ?_, ?_, ?_⟩
        · rw [String.toList_ofList]
          exact splits_of_splitOperator? hsplit
        · rw [String.toList_ofList]
          exact Text.trims_trim _
        · intro hname
          apply hempty
          simpa using congrArg String.toList hname

/-- An argument is a matcher exactly when it splits and has a name, which is what stands before the operator without the
white space around it. -/
theorem ofArgument_eq_ok_iff {argument : List Char} {m : Matcher} :
    ofArgument argument = .ok m ↔
      ∃ before, Splits argument before m.op m.value.toList ∧ Text.Trims before m.name.toList ∧ m.name ≠ "" := by
  constructor
  · exact exists_splits_of_ofArgument
  · rintro ⟨before, hsplit, htrims, hne⟩
    have hlist : m.name.toList ≠ [] := fun h => hne (String.toList_eq_nil_iff.mp h)
    rw [ofArgument_of_splits hsplit htrims hlist, String.ofList_toList, String.ofList_toList]

/-- Arguments and matchers: which arguments are accepted and as what, that there is no other way to split them, and that
a name, an operator and a value put together come back. -/
theorem ofArgument_accepts_splits :
    (∀ (argument : String) (m : Matcher), ofArgument argument.toList = .ok m ↔
      ∃ before, Splits argument.toList before m.op m.value.toList ∧ Text.Trims before m.name.toList ∧ m.name ≠ "") ∧
    (∀ (argument : String) (before before' value value' : List Char) (op op' : MatchOp),
      Splits argument.toList before op value → Splits argument.toList before' op' value' →
        before = before' ∧ op = op' ∧ value = value') ∧
    ∀ (name value : String) (op : MatchOp), name ≠ "" → (∀ c ∈ name.toList, c ≠ '=' ∧ c ≠ '!') →
      Text.Bare name.toList →
        (ofArgument (name ++ op.symbol ++ value).toList = .ok ⟨name, value, op⟩ ↔
          ¬ (op = .equal ∧ value.toList.head? = some '~')) := by
  refine ⟨fun argument m => ofArgument_eq_ok_iff, fun _ _ _ _ _ _ _ h h' => h.unique h', ?_⟩
  intro name value op hne hfree hbare
  have hparts : (name ++ op.symbol ++ value).toList = name.toList ++ op.symbol.toList ++ value.toList := by
    rw [String.toList_append, String.toList_append]
  rw [ofArgument_eq_ok_iff, not_and]
  constructor
  · rintro ⟨before, hsplit, -, -⟩
    exact hsplit.longest
  · intro hlongest
    exact ⟨name.toList, ⟨hparts, hfree, hlongest⟩, hbare.trims, hne⟩

/-- Blanks around the name, operators in the value, and a tilde at its head. -/
theorem ofArgument_accepts_splits_tilde :
    ofArgument " job =a!=b".toList = .ok ⟨"job", "a!=b", .equal⟩ ∧
    ofArgument ("job" ++ MatchOp.notEqual.symbol ++ "~x").toList = .ok ⟨"job", "~x", .notEqual⟩ ∧
    ofArgument ("job" ++ MatchOp.equal.symbol ++ "~x").toList ≠ .ok ⟨"job", "~x", .equal⟩ := by
  obtain ⟨haccepts, -, hjoined⟩ := ofArgument_accepts_splits
  have hjob : Text.Bare "job".toList := by
    constructor
    · rintro c ⟨⟩
      rfl
    · rintro c ⟨⟩
      rfl
  have hblank : ∀ c ∈ [' '], Text.isBlank c = true := List.forall_mem_singleton.mpr rfl
  have hfree : ∀ c ∈ "job".toList, c ≠ '=' ∧ c ≠ '!' := by simp
  refine ⟨?_, ?_, ?_⟩
  · rw [haccepts]
    exact ⟨" job ".toList, ⟨rfl, by simp, by decide⟩, ⟨⟨[' '], [' '], rfl, hblank, hblank⟩, hjob⟩, by decide⟩
  · rw [hjoined "job" "~x" .notEqual (by decide) hfree hjob]
    decide
  · rw [ne_eq, hjoined "job" "~x" .equal (by decide) hfree hjob]
    decide

/-- A name is needed: an empty one does not come back, whatever follows it. -/
theorem ofArgument_empty_name_refused :
    ¬ ∀ (name value : String) (op : MatchOp), (∀ c ∈ name.toList, c ≠ '=' ∧ c ≠ '!') → Text.Bare name.toList →
      (ofArgument (name ++ op.symbol ++ value).toList = .ok ⟨name, value, op⟩ ↔
        ¬ (op = .equal ∧ value.toList.head? = some '~')) := by
  intro h
  have haccepted := (h "" "api" .equal nofun ⟨nofun, nofun⟩).mpr (by decide)
  have hrefused : ofArgument ("" ++ MatchOp.equal.symbol ++ "api").toList = .error .emptyName := rfl
  rw [hrefused] at haccepted
  cases haccepted

end Matcher

end MetricQuery
