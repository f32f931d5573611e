import MetricQuery.Draft.Workbench
import MetricQuery.Proofs.NewNodes

/-!
# What runs of the workbench keep

Trees on the workbench are made of each other, so a property of all of them has to survive every form,
every edit and every way in which the two nest. It is enough to look at one node at a time. A step
gives its slot a root and children that come from elsewhere: the children of an edited node are its
old ones or what the edit brings (`children_edit`), the children of a new node are its arguments
(`Form.Makes.mem_args_of_mem_children`). So a property that forms and edits keep at the root, `Kept`, holds at
every node of every slot after every step (`satisfies_step`) and every run (`satisfies_run`).

There are two such properties. `Expr.Named` says that the names of a node are there, and with it every
tree on the workbench passes its check. `Expr.Tidy` says that an aggregation keeps labels or drops labels
and not both, and that a pairing has labels only with their keyword. A tree from a stored text is
checked for names only, so the second holds of runs that load none.
-/

set_option autoImplicit false

namespace MetricQuery

/-- The trees that an edit brings with it. -/
def Edit.givenExprs {ε μ : Type} : Edit ε μ → List ε
  | .operand e => [e]
  | .param e => [e]
  | .left e => [e]
  | .right e => [e]
  | .addArg e => [e]
  | .args es => es
  | _ => []

/-- The matchers that an edit brings with it. -/
def Edit.givenMatchers {ε μ : Type} : Edit ε μ → List μ
  | .addMatcher m => [m]
  | .matchers ms => ms
  | _ => []

/-- A result that a refusal passes through comes from the result before it. -/
theorem map_eq_ok_iff {ε α β : Type} {x : Except ε α} {f : α → β} {b : β} :
    (do return f (← x)) = Except.ok b ↔ ∃ a, x = .ok a ∧ f a = b := by
  rw [bind_eq_ok_iff]
  constructor
  · rintro ⟨a, ha, hb⟩
    exact ⟨a, ha, Except.ok.inj hb⟩
  · rintro ⟨a, ha, hb⟩
    exact ⟨a, ha, congrArg Except.ok hb⟩

/-- A name that is accepted is not empty. -/
theorem EditFault.name_eq_ok {given name : String} {v : Violation}
    (h : EditFault.name given v = .ok name) : name ≠ "" := by
  unfold EditFault.name at h
  cases hr : required given v with
  | error f =>
    rw [hr] at h
    cases h
  | ok kept =>
    rw [hr] at h
    obtain ⟨rfl, hne⟩ := required_eq_ok_iff.mp hr
    cases h
    exact hne

/-- A name that is not empty is accepted. -/
theorem EditFault.name_of_ne {given : String} (h : given ≠ "") (v : Violation) :
    EditFault.name given v = .ok given := by
  rw [EditFault.name, required, if_neg h]

/-! ## One node -/

/-- An edit changes the root, and every child is an old one or one that the edit brings. -/
theorem Expr.children_edit {e e' : Expr} {change : Edit Expr Matcher}
    (h : e.edit change = .ok e') :
    ∀ c ∈ e'.children, c ∈ e.children ∨ c ∈ change.givenExprs := by
  intro c hc
  cases e with
  | number x =>
    cases change <;> cases h
    exact .inl hc
  | text s =>
    cases change <;> cases h
    exact .inl hc
  | selector s =>
    obtain ⟨s', -, rfl⟩ := map_eq_ok_iff.mp h
    exact .inl hc
  | subquery body w =>
    simp only [Expr.edit] at h
    split at h
    · cases h
      exact .inr hc
    · obtain ⟨w', -, rfl⟩ := map_eq_ok_iff.mp h
      exact .inl hc
  | unary op e =>
    cases change <;> cases h
    · exact .inr hc
    · exact .inl hc
  | aggregation op e param g =>
    simp only [Expr.edit] at h
    split at h
    · cases h
      exact .inl hc
    · cases h
      rcases List.mem_cons.mp hc with rfl | hc
      · exact .inr List.mem_cons_self
      · exact .inl (List.mem_cons_of_mem _ hc)
    · cases h
      rcases List.mem_cons.mp hc with rfl | hc
      · exact .inl List.mem_cons_self
      · exact .inr hc
    · obtain ⟨g', -, rfl⟩ := map_eq_ok_iff.mp h
      exact .inl hc
  | binary op l r m =>
    simp only [Expr.edit] at h
    split at h
    · cases h
      exact .inl hc
    · cases h
      rcases List.mem_cons.mp hc with rfl | hc
      · exact .inr List.mem_cons_self
      · exact .inl (List.mem_cons_of_mem _ hc)
    · cases h
      rcases List.mem_cons.mp hc with rfl | hc
      · exact .inl List.mem_cons_self
      · exact .inr hc
    · obtain ⟨m', -, rfl⟩ := map_eq_ok_iff.mp h
      exact .inl hc
  | call f args =>
    simp only [Expr.edit] at h
    split at h
    · obtain ⟨name, -, rfl⟩ := map_eq_ok_iff.mp h
      exact .inl hc
    · cases h
      exact List.mem_append.mp hc
    · cases h
      exact .inr hc
    · cases h

/-! ## One step and one run -/

/-- A property `P` of nodes and one `Q` of matchers that new nodes have and that no edit breaks. -/
structure Kept (P : Expr → Prop) (Q : Matcher → Prop) : Prop where
  number (x : Double) : P (.number x)
  text (s : String) : P (.text s)
  make {form : Form} {args : List (Argument Expr)} {e : Expr} : form.Makes args e → P e
  edit {e e' : Expr} {change : Edit Expr Matcher} :
    P e → (∀ m ∈ change.givenMatchers, Q m) → e.edit change = .ok e' → P e'
  matcher {name : String} : name ≠ "" → Q ⟨name, "", .standard⟩
  editMatcher {m m' : Matcher} {change : Edit Expr Matcher} : Q m → m.edit change = .ok m' → Q m'

/-- The property holds at every node of a tree in the item, or of its matcher. -/
def Item.Satisfies (P : Expr → Prop) (Q : Matcher → Prop) : Item → Prop
  | .expr _ e => e.All P
  | .matcher _ m => Q m

namespace Workbench

/-- The property holds in every slot. -/
def Satisfies (P : Expr → Prop) (Q : Matcher → Prop) (bench : Workbench) : Prop :=
  ∀ slot item, bench.get? slot = some item → item.Satisfies P Q

section Run

variable {P : Expr → Prop} {Q : Matcher → Prop} {bench : Workbench}

/-- What holds of the whole bench holds of every node of an expression on it. -/
theorem all_of_expr (hb : bench.Satisfies P Q) {slot : String} {e : Expr}
    (h : bench.expr slot = .ok e) : e.All P := by
  unfold Workbench.expr at h
  split at h
  · rename_i hget
    cases h
    exact hb _ _ hget
  · cases h

/-- So it does of a matcher on it. -/
theorem of_matcher (hb : bench.Satisfies P Q) {slot : String} {m : Matcher}
    (h : bench.matcher slot = .ok m) : Q m := by
  unfold Workbench.matcher at h
  split at h
  · rename_i hget
    cases h
    exact hb _ _ hget
  · cases h

/-- So it does of an item in a slot. -/
theorem satisfies_of_item (hb : bench.Satisfies P Q) {slot : String} {item : Item}
    (h : bench.item slot = .ok item) : item.Satisfies P Q := by
  unfold Workbench.item at h
  split at h
  · rename_i hget
    cases h
    exact hb _ _ hget
  · cases h

/-- What is fetched from several slots has the property that each fetch ensures. -/
theorem forall_mem_of_each {α : Type} {R : α → Prop} {fetch : String → Except StepFault α}
    (hf : ∀ slot a, fetch slot = .ok a → R a) {slots : List String} {as : List α}
    (h : each fetch slots = .ok as) : ∀ a ∈ as, R a := by
  induction slots generalizing as with
  | nil =>
    cases h
    exact nofun
  | cons slot slots ih =>
    unfold each at h
    obtain ⟨a, hslot, hlater⟩ := bind_eq_ok_iff.mp h
    obtain ⟨rest, hrest, rfl⟩ := map_eq_ok_iff.mp hlater
    exact List.forall_mem_cons.mpr ⟨hf slot a hslot, ih hrest⟩

/-- An argument brings copies of what slots hold, or literals. -/
theorem all_of_argument (kept : Kept P Q) (hb : bench.Satisfies P Q) {arg : Argument String}
    {a : Argument Expr} (h : bench.argument arg = .ok a) : ∀ c ∈ a.exprs, c.All P := by
  have hnumber (x : Double) : (Expr.number x).All P := .node (kept.number x) nofun
  have htext (s : String) : (Expr.text s).All P := .node (kept.text s) nofun
  cases arg with
  | operand slot =>
    obtain ⟨e, he, rfl⟩ := map_eq_ok_iff.mp h
    exact List.forall_mem_singleton.mpr (all_of_expr hb he)
  | number x =>
    cases h
    exact List.forall_mem_singleton.mpr (hnumber x)
  | text s =>
    cases h
    exact List.forall_mem_singleton.mpr (htext s)
  | texts ss =>
    cases h
    intro c hc
    obtain ⟨s, -, rfl⟩ := List.mem_map.mp hc
    exact htext s

/-- So it does of every node in arguments that stand for slots. -/
theorem all_of_arguments (kept : Kept P Q) (hb : bench.Satisfies P Q)
    {args : List (Argument String)} {as : List (Argument Expr)} (h : bench.arguments args = .ok as) :
    ∀ c ∈ as.flatMap Argument.exprs, c.All P := by
  induction args generalizing as with
  | nil =>
    cases h
    exact nofun
  | cons arg args ih =>
    unfold Workbench.arguments at h
    obtain ⟨a, harg, hlater⟩ := bind_eq_ok_iff.mp h
    obtain ⟨rest, hrest, rfl⟩ := map_eq_ok_iff.mp hlater
    intro c hc
    rw [List.flatMap_cons, List.mem_append] at hc
    rcases hc with hc | hc
    · exact all_of_argument kept hb harg c hc
    · exact ih hrest c hc

/-- An edit of slots brings trees and matchers that slots hold. -/
theorem of_resolve (hb : bench.Satisfies P Q) {change : Edit String String}
    {resolved : Edit Expr Matcher} (h : bench.resolve change = .ok resolved) :
    (∀ e ∈ resolved.givenExprs, e.All P) ∧ ∀ m ∈ resolved.givenMatchers, Q m := by
  have hexpr : ∀ slot e, bench.expr slot = .ok e → e.All P := by
    intro slot e he
    exact all_of_expr hb he
  have hmatcher : ∀ slot m, bench.matcher slot = .ok m → Q m := by
    intro slot m hm
    exact of_matcher hb hm
  cases change with
  | addMatcher slot =>
    obtain ⟨m, hm, rfl⟩ := map_eq_ok_iff.mp h
    exact ⟨nofun, List.forall_mem_singleton.mpr (hmatcher _ _ hm)⟩
  | matchers slots =>
    obtain ⟨ms, hms, rfl⟩ := map_eq_ok_iff.mp h
    exact ⟨nofun, forall_mem_of_each hmatcher hms⟩
  | args slots =>
    obtain ⟨es, hes, rfl⟩ := map_eq_ok_iff.mp h
    exact ⟨forall_mem_of_each hexpr hes, nofun⟩
  | operand slot | param slot | left slot | right slot | addArg slot =>
    obtain ⟨e, he, rfl⟩ := map_eq_ok_iff.mp h
    exact ⟨List.forall_mem_singleton.mpr (hexpr _ _ he), nofun⟩
  | _ =>
    cases h
    exact ⟨nofun, nofun⟩

/-- An edit of an item keeps the property. -/
theorem satisfies_edit (kept : Kept P Q) {change : Edit Expr Matcher} {item item' : Item}
    (hexprs : ∀ e ∈ change.givenExprs, e.All P) (hmatchers : ∀ m ∈ change.givenMatchers, Q m)
    (hi : item.Satisfies P Q) (h : edit change item = .ok item') : item'.Satisfies P Q := by
  unfold edit at h
  split at h
  · split at h
    · rename_i e e' he
      cases h
      refine .node (kept.edit (Expr.All.root hi) hmatchers he) ?_
      intro c hc
      rcases Expr.children_edit he c hc with hold | hgiven
      · exact Expr.All.child hi c hold
      · exact hexprs c hgiven
    · cases h
  · split at h
    · rename_i m m' hm
      cases h
      exact kept.editMatcher hi hm
    · cases h
  · cases h

/-- Whatever a step puts into its slot has the property, provided that what it loads does. -/
theorem satisfies_result (kept : Kept P Q) (hb : bench.Satisfies P Q) {slot : String} {s : Step}
    (hload : ∀ text e, s = .load text → Expr.load text.toList = .ok e → e.All P) {item : Item}
    (h : bench.result slot s = .ok item) : item.Satisfies P Q := by
  cases s with
  | make form args =>
    obtain ⟨as, hargs, hnode⟩ := bind_eq_ok_iff.mp h
    cases hmake : form.make as with
    | error f =>
      simp only [hmake] at hnode
      cases hnode
    | ok e =>
      simp only [hmake] at hnode
      cases hnode
      have hmakes := Form.makes_of_make hmake
      refine .node (kept.make hmakes) ?_
      intro c hc
      exact all_of_arguments kept hb hargs c (hmakes.mem_args_of_mem_children c hc)
  | matcher name =>
    simp only [result] at h
    split at h
    · rename_i kept' hreq
      cases h
      obtain ⟨rfl, hne⟩ := required_eq_ok_iff.mp hreq
      exact kept.matcher hne
    · cases h
  | edit change =>
    obtain ⟨old, hitem, hlater⟩ := bind_eq_ok_iff.mp h
    obtain ⟨resolved, hres, hedit⟩ := bind_eq_ok_iff.mp hlater
    obtain ⟨hexprs, hmatchers⟩ := of_resolve hb hres
    exact satisfies_edit kept hexprs hmatchers (satisfies_of_item hb hitem) hedit
  | copy source => exact satisfies_of_item hb h
  | finish source =>
    obtain ⟨old, hold, rfl⟩ := map_eq_ok_iff.mp h
    have hsat := satisfies_of_item hb hold
    cases old <;> exact hsat
  | load text =>
    simp only [result] at h
    split at h
    · rename_i e he
      cases h
      exact hload text e rfl he
    · cases h

/-- A step keeps the property in every slot. -/
theorem satisfies_step (kept : Kept P Q) (hb : bench.Satisfies P Q) (slot : String) {s : Step}
    (hload : ∀ text e, s = .load text → Expr.load text.toList = .ok e → e.All P) :
    (bench.step slot s).Satisfies P Q := by
  unfold step
  split
  · rename_i item hitem
    intro other held hget
    rw [get?_put] at hget
    split at hget
    · cases hget
      exact satisfies_result kept hb hload hitem
    · exact hb other held hget
  · exact hb

/-- A run keeps the property in every slot. -/
theorem satisfies_run (kept : Kept P Q) (hb : bench.Satisfies P Q) {steps : List (String × Step)}
    (hload : ∀ entry ∈ steps, ∀ text e,
      entry.2 = .load text → Expr.load text.toList = .ok e → e.All P) :
    (bench.run steps).Satisfies P Q := by
  unfold run
  induction steps generalizing bench with
  | nil => exact hb
  | cons entry steps ih =>
    rw [List.foldl_cons]
    apply ih
    · exact satisfies_step kept hb entry.1 (hload entry List.mem_cons_self)
    · exact fun other hother => hload other (List.mem_cons_of_mem _ hother)

/-- Nothing is in the slots of an empty workbench. -/
theorem satisfies_empty : ({} : Workbench).Satisfies P Q := by
  intro slot item hget
  cases hget

end Run

end Workbench

/-! ## Names and clauses -/

/-- An aggregation keeps labels or drops labels, but not both. -/
def Grouping.OneWay (g : Grouping) : Prop :=
  g.keep = [] ∨ g.drop = []

/-- Labels of a pairing stand behind a keyword. -/
def Matching.Keyworded (m : Matching) : Prop :=
  (m.labels ≠ [] → m.scope ≠ none) ∧ (m.carried ≠ [] → m.side ≠ none)

/-- The clauses of a node itself go together. -/
def Expr.Tidy : Expr → Prop
  | .aggregation _ _ _ g => g.OneWay
  | .binary _ _ _ m => m.Keyworded
  | _ => True

/-- A new node has the names that it needs. -/
theorem Form.Makes.named_root {form : Form} {args : List (Argument Expr)} {e : Expr} (h : form.Makes args e) :
    e.Named := by
  cases h with
  | selector named => exact ⟨named, nofun⟩
  | call args named => exact named
  | named function args => exact function.2
  | _ => trivial

/-- A matcher keeps a name when it is edited. -/
theorem Matcher.name_ne_of_edit {m m' : Matcher} {change : Edit Expr Matcher} (hm : m.name ≠ "")
    (h : m.edit change = .ok m') : m'.name ≠ "" := by
  cases change with
  | labelName name =>
    obtain ⟨kept, hkept, rfl⟩ := map_eq_ok_iff.mp h
    exact EditFault.name_eq_ok hkept
  | labelValue value | labelOp op =>
    cases h
    exact hm
  | _ => cases h

/-- A selector keeps its names when it is edited, and gets only matchers with names. -/
theorem Selector.named_edit {s s' : Selector} {change : Edit Expr Matcher}
    (hs : (Expr.selector s).Named) (hmatchers : ∀ m ∈ change.givenMatchers, m.name ≠ "")
    (h : s.edit change = .ok s') : (Expr.selector s').Named := by
  obtain ⟨hmetric, hold⟩ := hs
  have hadd {m : Matcher} (hm : m.name ≠ "") : ∀ n ∈ s.matchers ++ [m], n.name ≠ "" :=
    List.forall_mem_append.mpr ⟨hold, List.forall_mem_singleton.mpr hm⟩
  cases change with
  | metric name =>
    obtain ⟨kept, hkept, rfl⟩ := map_eq_ok_iff.mp h
    exact ⟨EditFault.name_eq_ok hkept, hold⟩
  | addMatch name op value =>
    obtain ⟨kept, hkept, rfl⟩ := map_eq_ok_iff.mp h
    exact ⟨hmetric, hadd (EditFault.name_eq_ok hkept)⟩
  | addMatcher m =>
    cases h
    exact ⟨hmetric, hadd (hmatchers m List.mem_cons_self)⟩
  | matchers ms =>
    cases h
    exact ⟨hmetric, hmatchers⟩
  | offset modifier | instant modifier | range modifier =>
    cases h
    exact ⟨hmetric, hold⟩
  | _ => cases h

/-- So does any expression. -/
theorem Expr.named_edit {e e' : Expr} {change : Edit Expr Matcher} (he : e.Named)
    (hmatchers : ∀ m ∈ change.givenMatchers, m.name ≠ "") (h : e.edit change = .ok e') :
    e'.Named := by
  cases e with
  | number x | text s | unary op e =>
    simp only [Expr.edit] at h
    split at h <;> cases h <;> trivial
  | selector s =>
    obtain ⟨s', hs', rfl⟩ := map_eq_ok_iff.mp h
    exact Selector.named_edit he hmatchers hs'
  | subquery body w | aggregation op e param g | binary op l r m =>
    -- These nodes have no name of their own, whatever the edit gives them.
    have hkind : e'.kind = .subquery ∨ e'.kind = .aggregation ∨ e'.kind = .binary := by
      simp only [Expr.edit] at h
      split at h
      all_goals first
        | (cases h; simp [Expr.kind])
        | (obtain ⟨part, -, rfl⟩ := map_eq_ok_iff.mp h; simp [Expr.kind])
    cases e' <;> simp [Expr.kind] at hkind <;> trivial
  | call f args =>
    simp only [Expr.edit] at h
    split at h
    · obtain ⟨name, hname, rfl⟩ := map_eq_ok_iff.mp h
      exact EditFault.name_eq_ok hname
    · cases h
      exact he
    · cases h
      exact he
    · cases h

/-- Forms and edits leave no name empty. -/
theorem kept_named : Kept Expr.Named fun m => m.name ≠ "" where
  number _ := trivial
  text _ := trivial
  make := Form.Makes.named_root
  edit := Expr.named_edit
  matcher := id
  editMatcher := Matcher.name_ne_of_edit

/-- A new node has no labels in its clauses. -/
theorem Form.Makes.tidy_root {form : Form} {args : List (Argument Expr)} {e : Expr} (h : form.Makes args e) :
    e.Tidy := by
  cases h with
  | aggregation | counted | labelled => exact .inl rfl
  | binary => exact ⟨nofun, nofun⟩
  | _ => trivial

/-- Setting one list of an aggregation's labels clears the other. -/
theorem Grouping.oneWay_edit {g g' : Grouping} {change : Edit Expr Matcher}
    (h : g.edit change = .ok g') : g'.OneWay := by
  cases change with
  | keep labels =>
    cases h
    exact .inr rfl
  | drop labels =>
    cases h
    exact .inl rfl
  | _ => cases h

/-- Labels of a pairing are set together with their keyword. -/
theorem Matching.keyworded_edit {m m' : Matching} {change : Edit Expr Matcher}
    (hm : m.Keyworded) (h : m.edit change = .ok m') : m'.Keyworded := by
  cases change with
  | pair scope labels =>
    cases h
    exact ⟨fun _ => nofun, hm.2⟩
  | group side labels =>
    cases h
    exact ⟨hm.1, fun _ => nofun⟩
  | _ => cases h

/-- A tidy expression is still tidy after an edit. -/
theorem Expr.tidy_edit {e e' : Expr} {change : Edit Expr Matcher} (he : e.Tidy)
    (h : e.edit change = .ok e') : e'.Tidy := by
  cases e with
  | number x | text s | unary op e =>
    simp only [Expr.edit] at h
    split at h <;> cases h <;> trivial
  | selector s =>
    obtain ⟨s', -, rfl⟩ := map_eq_ok_iff.mp h
    trivial
  | subquery body w =>
    simp only [Expr.edit] at h
    split at h
    · cases h
      trivial
    · obtain ⟨w', -, rfl⟩ := map_eq_ok_iff.mp h
      trivial
  | aggregation op e param g =>
    simp only [Expr.edit] at h
    split at h
    · cases h
      exact he
    · cases h
      exact he
    · cases h
      exact he
    · obtain ⟨g', hg', rfl⟩ := map_eq_ok_iff.mp h
      exact Grouping.oneWay_edit hg'
  | binary op l r m =>
    simp only [Expr.edit] at h
    split at h
    · cases h
      exact he
    · cases h
      exact he
    · cases h
      exact he
    · obtain ⟨m', hm', rfl⟩ := map_eq_ok_iff.mp h
      exact Matching.keyworded_edit he hm'
  | call f args =>
    simp only [Expr.edit] at h
    split at h
    · obtain ⟨name, -, rfl⟩ := map_eq_ok_iff.mp h
      trivial
    · cases h
      trivial
    · cases h
      trivial
    · cases h

/-- Forms and edits keep the clauses of a node together. -/
theorem kept_tidy : Kept Expr.Tidy fun _ => True where
  number _ := trivial
  text _ := trivial
  make := Form.Makes.tidy_root
  edit he _ := Expr.tidy_edit he
  matcher _ := trivial
  editMatcher _ _ := trivial

/-- A tree that was loaded has passed its check. -/
theorem Expr.named_of_load {text : List Char} {e : Expr} (h : Expr.load text = .ok e) :
    e.All Expr.Named := by
  unfold Expr.load at h
  split at h
  · cases h
  · split at h
    · cases h
    · rename_i hvalid
      cases h
      exact (Expr.validate_eq_ok_iff e).mp hvalid

/-- Whether a step takes a tree from a stored text. -/
def Step.isLoad : Step → Bool
  | .load _ => true
  | _ => false

namespace Workbench

/-- Every tree and every matcher on a workbench has its names after any steps from an empty one. -/
theorem satisfies_named_run (steps : List (String × Step)) :
    (run {} steps).Satisfies Expr.Named fun m => m.name ≠ "" :=
  satisfies_run kept_named satisfies_empty fun _ _ _ _ _ hload => Expr.named_of_load hload

/-- Every tree on a workbench is tidy after any steps from an empty one that load nothing. -/
theorem satisfies_tidy_run {steps : List (String × Step)} (hfree : ∀ entry ∈ steps, entry.2.isLoad = false) :
    (run {} steps).Satisfies Expr.Tidy fun _ => True := by
  apply satisfies_run kept_tidy satisfies_empty
  intro entry hentry text e hstep
  have hno := hfree entry hentry
  rw [hstep] at hno
  cases hno

/-- After any steps from an empty workbench, every matcher in a slot has a name and every tree in a slot
passes its check. If no step loads a stored tree, then moreover every aggregation of these trees, at any
depth, keeps labels or drops labels and not both, and every pairing has labels only with their
keyword. -/
theorem run_valid_and_tidy (steps : List (String × Step)) :
    (∀ slot finished m, (run {} steps).get? slot = some (.matcher finished m) → m.name ≠ "") ∧
    (∀ slot finished e, (run {} steps).get? slot = some (.expr finished e) → e.validate = .ok ()) ∧
    ((∀ entry ∈ steps, entry.2.isLoad = false) →
      ∀ slot finished e, (run {} steps).get? slot = some (.expr finished e) → e.All Expr.Tidy) := by
  refine ⟨?_, ?_, ?_⟩
  · intro slot finished m hget
    exact satisfies_named_run steps slot _ hget
  · intro slot finished e hget
    exact (Expr.validate_eq_ok_iff e).mpr (satisfies_named_run steps slot _ hget)
  · intro hfree slot finished e hget
    exact satisfies_tidy_run hfree slot _ hget

/-- A run that sets the labels of an aggregation twice, refuses an empty name in between and then
takes the aggregation into a pairing. -/
def regrouping : List (String × Step) :=
  [("requests", .make .selector [.text "requests"]),
    ("total", .make (.aggregation .sum) [.operand "requests"]),
    ("total", .edit (.keep ["job"])),
    ("requests", .edit (.metric "")),
    ("total", .edit (.drop ["pod"])),
    ("share", .make (.binary .div) [.operand "requests", .operand "total"]),
    ("share", .edit (.pair .ignoringLabels ["pod"])),
    ("share", .edit (.group .left []))]

/-- The tree that `regrouping` leaves in its last slot: it is there, passes its check and has its
clauses in order at every node. -/
theorem regrouping_valid_and_tidy :
    (∀ entry ∈ regrouping, entry.2.isLoad = false) ∧
    ∃ e, (run {} regrouping).get? "share" = some (.expr false e) ∧ e.validate = .ok () ∧
      e.All Expr.Tidy := by
  obtain ⟨-, hvalid, htidy⟩ := run_valid_and_tidy regrouping
  have hfree : ∀ entry ∈ regrouping, entry.2.isLoad = false := by decide
  have hheld : (run {} regrouping).get? "share" = some (.expr false
      (.binary .div (.selector ⟨"requests", [], none, none, none⟩)
        (.aggregation .sum (.selector ⟨"requests", [], none, none, none⟩) none ⟨[], ["pod"]⟩)
        ⟨some .ignoringLabels, ["pod"], some .left, []⟩)) := by rfl
  exact ⟨hfree, _, hheld, hvalid _ _ _ hheld, htidy hfree _ _ _ hheld⟩

/-! ## Words of the catalogue -/

/-- Arguments for slots that hold expressions become arguments of the same sorts with these expressions. -/
theorem exists_arguments {bench : Workbench} {parameters : List Parameter} {args : List (Argument String)}
    (hfits : List.Forall₂ Parameter.Takes parameters args)
    (hheld : ∀ source, .operand source ∈ args → ∃ e, bench.expr source = .ok e) :
    ∃ values, bench.arguments args = .ok values ∧ List.Forall₂ Parameter.Takes parameters values := by
  induction hfits with
  | nil => exact ⟨[], rfl, .nil⟩
  | cons hfirst _ ih =>
    obtain ⟨values, hvalues, hrest⟩ := ih fun source hsource => hheld source (List.mem_cons_of_mem _ hsource)
    cases hfirst with
    | operand source =>
      obtain ⟨e, he⟩ := hheld source List.mem_cons_self
      exact ⟨.operand e :: values, by simp [arguments, argument, he, hvalues, bind, Except.bind, pure, Except.pure],
        .cons (.operand e) hrest⟩
    | number x =>
      exact ⟨.number x :: values, by simp [arguments, argument, hvalues, bind, Except.bind, pure, Except.pure],
        .cons (.number x) hrest⟩
    | text s =>
      exact ⟨.text s :: values, by simp [arguments, argument, hvalues, bind, Except.bind, pure, Except.pure],
        .cons (.text s) hrest⟩
    | texts ss =>
      exact ⟨.texts ss :: values, by simp [arguments, argument, hvalues, bind, Except.bind, pure, Except.pure],
        .cons (.texts ss) hrest⟩

/-- At any point of a run that began with an empty workbench, a word of the catalogue makes a tree from slots that hold
expressions. The tree passes its check, and it is tidy if nothing was loaded before. Only a selector without a name is
refused. -/
theorem result_word {steps : List (String × Step)} {entry : Entry} {args : List (Argument String)}
    (hentry : entry ∈ Catalogue.entries) (hfits : entry.Fits args)
    (hheld : ∀ source, .operand source ∈ args → ∃ e, (run {} steps).expr source = .ok e) (slot : String) :
    (∃ e, (run {} steps).result slot (.make entry.form args) = .ok (.expr false e) ∧ e.validate = .ok () ∧
      ((∀ entry ∈ steps, entry.2.isLoad = false) → e.All Expr.Tidy)) ∨
    entry.form = .selector ∧ (run {} steps).arguments args = .ok [.text ""] ∧
      (run {} steps).result slot (.make entry.form args) = .error (.invalid .emptyMetric) := by
  obtain ⟨values, hvalues, hfits'⟩ := exists_arguments hfits hheld
  rcases Catalogue.make_cases hentry hfits' with ⟨e, he⟩ | ⟨hform, rfl, hfault⟩
  · have hresult : (run {} steps).result slot (.make entry.form args) = .ok (.expr false e) := by
      simp only [result, hvalues, he, bind, Except.bind, pure, Except.pure]
    have hload {text : String} : Step.make entry.form args ≠ .load text := nofun
    refine .inl ⟨e, hresult, ?_, fun hfree => ?_⟩
    · exact (Expr.validate_eq_ok_iff e).mpr
        (satisfies_result kept_named (satisfies_named_run steps) (fun _ _ h => absurd h hload) hresult)
    · exact satisfies_result kept_tidy (satisfies_tidy_run hfree) (fun _ _ h => absurd h hload) hresult
  · refine .inr ⟨hform, hvalues, ?_⟩
    simp only [result, hvalues, hfault, bind, Except.bind]
    rfl

end Workbench

end MetricQuery
