import MetricQuery.Expr.Validate

/-!
# Nodes at any depth

A statement about every node of a tree has two parts: what is said of one node, and that it is said
at every depth. `Expr.children` lists the nodes right under one node, `Expr.childInduction` is the
induction along it, and `Expr.All P` says that `P` holds at every node. A property `P` of one node may
look at its children, but never has to walk the tree itself.

`validate_eq_ok_iff` reads the check of a tree in this way: a tree passes it exactly when every node
has the names that it needs.
-/

set_option autoImplicit false

namespace MetricQuery

namespace Expr

/-- The expressions right under a node, an aggregation's operand before its parameter. -/
def children : Expr → List Expr
  | number _ => []
  | text _ => []
  | selector _ => []
  | subquery body _ => [body]
  | unary _ e => [e]
  | aggregation _ e param _ => e :: param.toList
  | binary _ l r _ => [l, r]
  | call _ args => args

/-- A child is a smaller tree than its parent. -/
theorem sizeOf_lt_of_mem_children {c e : Expr} (h : c ∈ e.children) : sizeOf c < sizeOf e := by
  cases e with
  | number x => exact absurd h List.not_mem_nil
  | text s => exact absurd h List.not_mem_nil
  | selector s => exact absurd h List.not_mem_nil
  | subquery body w =>
    rw [children, List.mem_singleton] at h
    subst h
    simp only [subquery.sizeOf_spec]
    omega
  | unary op e =>
    rw [children, List.mem_singleton] at h
    subst h
    simp only [unary.sizeOf_spec]
    omega
  | aggregation op e param g =>
    rw [children, List.mem_cons, Option.mem_toList] at h
    rcases h with rfl | h
    · simp only [aggregation.sizeOf_spec]
      omega
    · cases h
      simp only [aggregation.sizeOf_spec, Option.some.sizeOf_spec]
      omega
  | binary op l r m =>
    rw [children, List.mem_cons, List.mem_singleton] at h
    rcases h with rfl | rfl
    · simp only [binary.sizeOf_spec]
      omega
    · simp only [binary.sizeOf_spec]
      omega
  | call f args =>
    have hlt := List.sizeOf_lt_of_mem h
    simp only [children] at hlt
    simp only [call.sizeOf_spec]
    omega

/-- Induction over trees: what holds of a node once it holds of its children holds of every tree. -/
@[elab_as_elim]
theorem childInduction {motive : Expr → Prop}
    (node : ∀ e : Expr, (∀ c ∈ e.children, motive c) → motive e) (e : Expr) : motive e :=
  node e fun c _ => childInduction node c
termination_by sizeOf e
decreasing_by exact sizeOf_lt_of_mem_children ‹_›

/-- The property holds at every node of a tree. -/
inductive All (P : Expr → Prop) : Expr → Prop where
  | node {e : Expr} (here : P e) (below : ∀ c ∈ e.children, All P c) : All P e

variable {P : Expr → Prop} {e : Expr}

/-- What holds of every node of an expression holds of its root. -/
theorem All.root (h : e.All P) : P e := by
  cases h
  assumption

/-- So it does of every node of its children. -/
theorem All.child (h : e.All P) : ∀ c ∈ e.children, c.All P := by
  cases h
  assumption

/-- What follows for each node follows for all. -/
theorem All.imp {Q : Expr → Prop} (hPQ : ∀ n, P n → Q n) (h : e.All P) : e.All Q := by
  induction h with
  | node here _ ih => exact .node (hPQ _ here) ih

/-- An expression without children has one node. -/
theorem All.leaf (h : P e) (hchildren : e.children = []) : e.All P := by
  refine .node h ?_
  rw [hchildren]
  exact nofun

/-- One with a child has its root and the nodes of the child. -/
theorem All.only {c : Expr} (h : P e) (hchildren : e.children = [c]) (hc : c.All P) : e.All P := by
  refine .node h ?_
  rw [hchildren]
  exact List.forall_mem_singleton.mpr hc

/-- One with two children has its root and the nodes of both. -/
theorem All.pair {l r : Expr} (h : P e) (hchildren : e.children = [l, r]) (hl : l.All P) (hr : r.All P) :
    e.All P := by
  refine .node h ?_
  rw [hchildren]
  exact List.forall_mem_cons.mpr ⟨hl, List.forall_mem_singleton.mpr hr⟩

/-- A property of every node is one of the root and of everything under it. -/
theorem all_iff : e.All P ↔ P e ∧ ∀ c ∈ e.children, c.All P :=
  ⟨fun h => ⟨h.root, h.child⟩, fun h => .node h.1 h.2⟩

/-! ## Names that must be there -/

/-- The names of a node itself are not empty. -/
def Named : Expr → Prop
  | selector s => s.metric ≠ "" ∧ ∀ m ∈ s.matchers, m.name ≠ ""
  | call f _ => f ≠ ""
  | _ => True

end Expr

/-- A required name is passed on when it is not empty. -/
theorem required_eq_ok_iff {name given : String} {v : Violation} :
    required given v = .ok name ↔ given = name ∧ given ≠ "" := by
  unfold required
  split
  · rename_i h
    simp [h]
  · rename_i h
    simp [h]

/-- What two steps in a row give comes from what the first one gives. -/
theorem bind_eq_ok_iff {ε α β : Type} {x : Except ε α} {next : α → Except ε β} {b : β} :
    (x >>= next) = .ok b ↔ ∃ a, x = .ok a ∧ next a = .ok b := by
  cases x with
  | error f => simp [bind, Except.bind]
  | ok a => simp [bind, Except.bind]

/-- A step that only checks goes through exactly when it and what follows go through. -/
theorem bind_unit_eq_ok_iff {ε α : Type} {x : Except ε Unit} {y : Except ε α} {a : α} :
    (x >>= fun _ => y) = .ok a ↔ x = .ok () ∧ y = .ok a := by
  rw [bind_eq_ok_iff]
  constructor
  · rintro ⟨_, hx, hy⟩
    exact ⟨hx, hy⟩
  · rintro ⟨hx, hy⟩
    exact ⟨(), hx, hy⟩

/-- A matcher is valid when it has a name. -/
theorem Matcher.validate_eq_ok_iff {m : Matcher} : m.validate = .ok () ↔ m.name ≠ "" := by
  unfold Matcher.validate required
  split
  · rename_i h
    simp only [h, ne_eq, not_true, iff_false]
    exact nofun
  · rename_i h
    simp only [h, ne_eq, not_false_eq_true, iff_true]
    rfl

/-- Matchers are valid when each has a name. -/
theorem validateMatchers_eq_ok_iff {ms : List Matcher} :
    validateMatchers ms = .ok () ↔ ∀ m ∈ ms, m.name ≠ "" := by
  induction ms with
  | nil => simp [validateMatchers]
  | cons m ms ih =>
    rw [validateMatchers, bind_unit_eq_ok_iff, Matcher.validate_eq_ok_iff, ih, List.forall_mem_cons]

/-- A check of a name goes on when there is one. -/
theorem required_bind_eq_ok_iff {α : Type} {name : String} {v : Violation}
    {next : Except Violation α} {a : α} :
    (required name v >>= fun _ => next) = .ok a ↔ name ≠ "" ∧ next = .ok a := by
  unfold required
  split
  · rename_i h
    exact ⟨nofun, fun hn => absurd h hn.1⟩
  · rename_i h
    exact ⟨fun hn => ⟨h, hn⟩, fun hn => hn.2⟩

/-- A selector is valid when it and all its matchers have names. -/
theorem Selector.validate_eq_ok_iff {s : Selector} :
    s.validate = .ok () ↔ s.metric ≠ "" ∧ ∀ m ∈ s.matchers, m.name ≠ "" := by
  unfold Selector.validate
  rw [required_bind_eq_ok_iff, validateMatchers_eq_ok_iff]

namespace Expr

/-- A parameter is valid when it is missing or valid as an expression. -/
theorem validateParam_eq_ok_iff {param : Option Expr} :
    validateParam param = .ok () ↔ ∀ c ∈ param.toList, c.validate = .ok () := by
  cases param with
  | none => simp [validateParam]
  | some e => simp [validateParam]

/-- Arguments are valid when each is. -/
theorem validateArgs_eq_ok_iff {args : List Expr} :
    validateArgs args = .ok () ↔ ∀ c ∈ args, c.validate = .ok () := by
  induction args with
  | nil => simp [validateArgs]
  | cons e es ih => rw [validateArgs, bind_unit_eq_ok_iff, ih, List.forall_mem_cons]

/-- The check of a node is that of its own names and of its children. -/
theorem validate_eq_ok_iff_children (e : Expr) :
    e.validate = .ok () ↔ e.Named ∧ ∀ c ∈ e.children, c.validate = .ok () := by
  cases e with
  | number x => simp [validate, Named, children]
  | text s => simp [validate, Named, children]
  | selector s =>
    rw [validate, Selector.validate_eq_ok_iff]
    simp [Named, children]
  | subquery body w => simp [validate, Named, children]
  | unary op e => simp [validate, Named, children]
  | aggregation op e param g =>
    rw [validate, bind_unit_eq_ok_iff, validateParam_eq_ok_iff, children, List.forall_mem_cons]
    simp [Named]
  | binary op l r m =>
    rw [validate, bind_unit_eq_ok_iff]
    simp [Named, children]
  | call f args =>
    rw [validate, required_bind_eq_ok_iff, validateArgs_eq_ok_iff]
    simp [Named, children]

/-- A tree passes its check exactly when no node lacks a name. -/
theorem validate_eq_ok_iff (e : Expr) : e.validate = .ok () ↔ e.All Named := by
  induction e using childInduction with
  | node e ih =>
    rw [validate_eq_ok_iff_children, all_iff]
    constructor
    · rintro ⟨hnamed, hbelow⟩
      exact ⟨hnamed, fun c hc => (ih c hc).mp (hbelow c hc)⟩
    · rintro ⟨hnamed, hbelow⟩
      exact ⟨hnamed, fun c hc => (ih c hc).mpr (hbelow c hc)⟩

end Expr

end MetricQuery
