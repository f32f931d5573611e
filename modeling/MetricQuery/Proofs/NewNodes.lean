import MetricQuery.Draft.Catalogue
import MetricQuery.Proofs.Nodes
import Mathlib.Data.List.Forall2

/-!
# What forms make

A form makes a node when the number and the sort of its arguments are right and its name is not empty, and the fields
that no argument speaks of begin with their defaults. `Form.Makes` lists all such cases, and `make_eq_ok_iff` says that
there are no others. All that is shown about new nodes goes through this list.

The words of the catalogue always make a node from arguments that fit their parameters, `Catalogue.make_cases`; only a
selector can refuse its name. That the functions of the catalogue are called without a check makes no difference,
`Form.make_named`.
-/

set_option autoImplicit false

namespace MetricQuery

/-! ## The nodes of a form -/

namespace Form

/-- The nodes that a form makes, with the arguments that they are made of. -/
inductive Makes : Form → List (Argument Expr) → Expr → Prop
  | zero : Makes .number [] (.number (Double.zero false))
  | number (x : Double) : Makes .number [.number x] (.number x)
  | emptyText : Makes .text [] (.text "")
  | text (s : String) : Makes .text [.text s] (.text s)
  | selector {metric : String} (named : metric ≠ "") :
      Makes .selector [.text metric] (.selector ⟨metric, [], none, none, none⟩)
  | subquery (e : Expr) : Makes .subquery [.operand e] (.subquery e ⟨none, none, none, none⟩)
  | unary (op : Sign) (e : Expr) : Makes (.unary op) [.operand e] (.unary op e)
  | aggregation (op : Aggregator) (e : Expr) :
      Makes (.aggregation op) [.operand e] (.aggregation op e none ⟨[], []⟩)
  | counted (op : Aggregator) (x : Double) (e : Expr) :
      Makes (.aggregation op) [.number x, .operand e] (.aggregation op e (some (.number x)) ⟨[], []⟩)
  | labelled (op : Aggregator) (s : String) (e : Expr) :
      Makes (.aggregation op) [.text s, .operand e] (.aggregation op e (some (.text s)) ⟨[], []⟩)
  | binary (op : BinaryOp) (l r : Expr) :
      Makes (.binary op) [.operand l, .operand r] (.binary op l r ⟨none, [], none, []⟩)
  | call {function : String} (args : List (Argument Expr)) (named : function ≠ "") :
      Makes (.call function) args (.call function (args.flatMap Argument.exprs))
  | named (function : FunctionName) (args : List (Argument Expr)) :
      Makes (.named function) args (.call function.1 (args.flatMap Argument.exprs))

variable {form : Form} {args : List (Argument Expr)} {e : Expr}

/-- A form makes nothing that is not listed. -/
theorem makes_of_make (h : form.make args = .ok e) : form.Makes args e := by
  cases form with
  | number =>
    simp only [make] at h
    split at h <;> cases h
    · exact .zero
    · exact .number _
  | text =>
    simp only [make] at h
    split at h <;> cases h
    · exact .emptyText
    · exact .text _
  | selector =>
    simp only [make] at h
    split at h
    · split at h
      · rename_i hrequired
        cases h
        obtain ⟨rfl, hne⟩ := required_eq_ok_iff.mp hrequired
        exact .selector hne
      · cases h
    · cases h
  | subquery =>
    simp only [make] at h
    split at h <;> cases h
    exact .subquery _
  | unary op =>
    simp only [make] at h
    split at h <;> cases h
    exact .unary op _
  | aggregation op =>
    simp only [make, makeAggregation] at h
    split at h <;> cases h
    · exact .aggregation op _
    · exact .counted op _ _
    · exact .labelled op _ _
  | binary op =>
    simp only [make] at h
    split at h <;> cases h
    exact .binary op _ _
  | call function =>
    simp only [make] at h
    split at h
    · rename_i hrequired
      cases h
      obtain ⟨rfl, hne⟩ := required_eq_ok_iff.mp hrequired
      exact .call args hne
    · cases h
  | named function =>
    cases h
    exact .named function args

/-- A form makes the nodes that are listed for it, and no others. -/
theorem make_eq_ok_iff : form.make args = .ok e ↔ form.Makes args e := by
  refine ⟨makes_of_make, fun h => ?_⟩
  cases h with
  | selector named => simp only [make, required_eq_ok_iff.mpr ⟨rfl, named⟩]
  | call args named => simp only [make, required_eq_ok_iff.mpr ⟨rfl, named⟩]
  | _ => rfl

/-- A name that is not empty makes the same call with a check and without. -/
theorem make_named (function : FunctionName) (args : List (Argument Expr)) :
    (named function).make args = (call function.1).make args := by
  rw [make_eq_ok_iff.mpr (.named function args), make_eq_ok_iff.mpr (.call args function.2)]

/-- The children of a new node are among what its arguments bring. -/
theorem Makes.mem_args_of_mem_children (h : form.Makes args e) :
    ∀ c ∈ e.children, c ∈ args.flatMap Argument.exprs := by
  cases h with
  -- The operand stands last among the arguments and first among the children.
  | counted op x e => simp [Expr.children, Argument.exprs, or_comm]
  | labelled op s e => simp [Expr.children, Argument.exprs, or_comm]
  | _ => simp [Expr.children, Argument.exprs]

end Form

/-! ## The catalogue -/

/-- An argument of the sort that a parameter asks for. -/
inductive Parameter.Takes {ε : Type} : Parameter → Argument ε → Prop
  | operand (e : ε) : Takes .operand (.operand e)
  | number (x : Double) : Takes .number (.number x)
  | text (s : String) : Takes .text (.text s)
  | texts (ss : List String) : Takes .texts (.texts ss)

/-- Arguments that fit the parameters of a word, one for each. -/
def Entry.Fits {ε : Type} (entry : Entry) (args : List (Argument ε)) : Prop :=
  List.Forall₂ Parameter.Takes entry.parameters args

/-- Arguments that fit make a node, unless the word asks for a selector and the name for it is empty. -/
def Entry.Sound (entry : Entry) : Prop :=
  ∀ args : List (Argument Expr), entry.Fits args →
    (∃ e, entry.form.Makes args e) ∨ entry.form = .selector ∧ args = [.text ""]

namespace Catalogue

variable {args : List (Argument Expr)}

/-- Arguments for one operand are one expression. -/
theorem eq_operand_of_fits (h : List.Forall₂ Parameter.Takes [.operand] args) : ∃ e, args = [.operand e] := by
  obtain ⟨_, _, ⟨e⟩, hrest, rfl⟩ := List.forall₂_cons_left_iff.mp h
  exact ⟨e, by rw [List.forall₂_nil_left_iff.mp hrest]⟩

/-- Arguments that begin with a number. -/
theorem eq_number_of_fits {parameters : List Parameter}
    (h : List.Forall₂ Parameter.Takes (.number :: parameters) args) :
    ∃ x rest, List.Forall₂ Parameter.Takes parameters rest ∧ args = .number x :: rest := by
  obtain ⟨_, rest, hfirst, hrest, rfl⟩ := List.forall₂_cons_left_iff.mp h
  cases hfirst
  exact ⟨_, rest, hrest, rfl⟩

/-- Arguments that begin with a string. -/
theorem eq_text_of_fits {parameters : List Parameter} (h : List.Forall₂ Parameter.Takes (.text :: parameters) args) :
    ∃ s rest, List.Forall₂ Parameter.Takes parameters rest ∧ args = .text s :: rest := by
  obtain ⟨_, rest, hfirst, hrest, rfl⟩ := List.forall₂_cons_left_iff.mp h
  cases hfirst
  exact ⟨_, rest, hrest, rfl⟩

/-- Calls by a name that needs no check take any arguments. -/
theorem sound_named (word : String) (function : FunctionName) (parameters : List Parameter) :
    (⟨word, .named function, parameters⟩ : Entry).Sound :=
  fun args _ => .inl ⟨_, .named function args⟩

/-- Literals, selectors and subqueries. -/
theorem sound_of_mem_basics : ∀ entry ∈ basics, entry.Sound := by
  simp only [basics, List.forall_mem_cons, List.not_mem_nil, false_implies, implies_true, and_true]
  refine ⟨?_, ?_, ?_, ?_⟩
  · intro args h
    obtain ⟨x, _, ⟨⟩, rfl⟩ := eq_number_of_fits h
    exact .inl ⟨_, .number x⟩
  · intro args h
    obtain ⟨s, _, ⟨⟩, rfl⟩ := eq_text_of_fits h
    exact .inl ⟨_, .text s⟩
  · intro args h
    obtain ⟨metric, _, ⟨⟩, rfl⟩ := eq_text_of_fits h
    by_cases hmetric : metric = ""
    · exact .inr ⟨rfl, by rw [hmetric]⟩
    · exact .inl ⟨_, .selector hmetric⟩
  · intro args h
    obtain ⟨e, rfl⟩ := eq_operand_of_fits h
    exact .inl ⟨_, .subquery e⟩

/-- Signs. -/
theorem sound_of_mem_signs : ∀ entry ∈ signs, entry.Sound := by
  simp only [signs, List.forall_mem_cons, List.not_mem_nil, false_implies, implies_true, and_true]
  constructor
  all_goals
    intro args h
    obtain ⟨e, rfl⟩ := eq_operand_of_fits h
    exact .inl ⟨_, .unary _ e⟩

/-- Aggregations, with and without a parameter. -/
theorem sound_of_mem_aggregations : ∀ entry ∈ aggregations, entry.Sound := by
  simp only [aggregations, List.forall_mem_append, List.forall_mem_map, List.forall_mem_singleton]
  refine ⟨⟨?_, ?_⟩, ?_⟩
  · intro op _ args h
    obtain ⟨e, rfl⟩ := eq_operand_of_fits h
    exact .inl ⟨_, .aggregation op e⟩
  · intro op _ args h
    obtain ⟨x, _, hrest, rfl⟩ := eq_number_of_fits h
    obtain ⟨e, rfl⟩ := eq_operand_of_fits hrest
    exact .inl ⟨_, .counted op x e⟩
  · intro args h
    obtain ⟨s, _, hrest, rfl⟩ := eq_text_of_fits h
    obtain ⟨e, rfl⟩ := eq_operand_of_fits hrest
    exact .inl ⟨_, .labelled _ s e⟩

/-- Operators between two operands. -/
theorem sound_of_mem_operations : ∀ entry ∈ operations, entry.Sound := by
  simp only [operations, List.forall_mem_map]
  intro op _ args h
  obtain ⟨_, _, ⟨l⟩, hrest, rfl⟩ := List.forall₂_cons_left_iff.mp h
  obtain ⟨r, rfl⟩ := eq_operand_of_fits hrest
  exact .inl ⟨_, .binary op l r⟩

/-- Functions. -/
theorem sound_of_mem_functions : ∀ entry ∈ functions, entry.Sound := by
  simp only [functions, otherFunctions, function, List.forall_mem_append, List.forall_mem_map, List.forall_mem_cons,
    List.not_mem_nil, false_implies, sound_named, implies_true, and_self]

/-- Every word of the catalogue makes a node from arguments that fit its parameters. Only a selector can fail, and it
does so for the empty name alone. -/
theorem make_cases {entry : Entry} (hentry : entry ∈ entries) (hfits : entry.Fits args) :
    (∃ e, entry.form.make args = .ok e) ∨
      entry.form = .selector ∧ args = [.text ""] ∧ entry.form.make args = .error (.invalid .emptyMetric) := by
  have hsound : entry.Sound := by
    simp only [entries, List.mem_append] at hentry
    rcases hentry with (((hbasic | hsign) | haggregation) | hoperation) | hfunction
    · exact sound_of_mem_basics entry hbasic
    · exact sound_of_mem_signs entry hsign
    · exact sound_of_mem_aggregations entry haggregation
    · exact sound_of_mem_operations entry hoperation
    · exact sound_of_mem_functions entry hfunction
  rcases hsound args hfits with ⟨e, he⟩ | ⟨hform, hargs⟩
  · exact .inl ⟨e, Form.make_eq_ok_iff.mpr he⟩
  · refine .inr ⟨hform, hargs, ?_⟩
    rw [hform, hargs]
    rfl

end Catalogue

end MetricQuery
