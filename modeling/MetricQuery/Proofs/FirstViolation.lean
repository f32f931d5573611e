import MetricQuery.Proofs.Nodes

/-!
# Which violation is reported

A tree can lack several names, and its check reports one of them. `Expr.violations` lists all the names that are
missing, in the order in which a reader of the tree meets them: a node before its children, the operand of an
aggregation before its parameter, the arguments of a call from left to right. The check reports the first of the
list, and passes exactly when the list is empty: `Expr.validate_first_violation`.

`Reports` says this of any check and any list. What carries the proof is that two checks in a row report what the
two lists in a row begin with, `Reports.andThen`, so the order of the list is the order of the check.
-/

set_option autoImplicit false

namespace MetricQuery

/-! ## All that is missing -/

/-- The violation of a name that is empty. -/
def missing (name : String) (v : Violation) : List Violation :=
  if name = "" then [v] else []

/-- All that is wrong with a matcher. -/
def Matcher.violations (m : Matcher) : List Violation :=
  missing m.name .emptyLabelName

/-- All that is wrong with a selector: its metric, and then its matchers. -/
def Selector.violations (s : Selector) : List Violation :=
  missing s.metric .emptyMetric ++ s.matchers.flatMap Matcher.violations

namespace Expr

mutual

/-- All violations in a tree, in the order of a walk through it. -/
def violations : Expr → List Violation
  | number _ => []
  | text _ => []
  | selector s => s.violations
  | subquery body _ => body.violations
  | unary _ e => e.violations
  | aggregation _ e param _ => e.violations ++ paramViolations param
  | binary _ l r _ => l.violations ++ r.violations
  | call f args => missing f .emptyFunction ++ argViolations args

/-- All that is wrong with a parameter. -/
def paramViolations : Option Expr → List Violation
  | none => []
  | some e => e.violations

/-- All that is wrong with arguments, from first to last. -/
def argViolations : List Expr → List Violation
  | [] => []
  | e :: es => e.violations ++ argViolations es

end

end Expr

/-! ## Checks and lists -/

/-- A check reports the first violation on a list, and passes when there is none. -/
inductive Reports : Except Violation Unit → List Violation → Prop where
  | passes : Reports (.ok ()) []
  | first (v : Violation) (others : List Violation) : Reports (.error v) (v :: others)

namespace Reports

variable {check next : Except Violation Unit} {faults later : List Violation}

/-- A check that passes leaves the report to the next one; one that fails has the first word. -/
theorem andThen (h : Reports check faults) (hnext : Reports next later) :
    Reports (check >>= fun _ => next) (faults ++ later) := by
  cases h with
  | passes => exact hnext
  | first v others => exact first v (others ++ later)

/-- A check succeeds exactly when its list is empty. -/
theorem ok_iff (h : Reports check faults) : check = .ok () ↔ faults = [] := by
  cases h with
  | passes => simp
  | first v others => simp

/-- A check fails with the first of its list. -/
theorem error_iff (h : Reports check faults) (v : Violation) : check = .error v ↔ faults.head? = some v := by
  cases h with
  | passes => simp
  | first w others => simp

end Reports

/-! ## The check of a tree -/

/-- A name that is required is reported if it is empty, before all that follows. -/
theorem reports_required {next : Except Violation Unit} {later : List Violation} (name : String) (v : Violation)
    (hnext : Reports next later) : Reports (required name v >>= fun _ => next) (missing name v ++ later) := by
  unfold required missing
  by_cases h : name = ""
  · rw [if_pos h, if_pos h]
    exact .first v later
  · rw [if_neg h, if_neg h]
    exact hnext

/-- A matcher is checked as its list of violations says. -/
theorem Matcher.reports_validate (m : Matcher) : Reports m.validate m.violations := by
  have h := reports_required m.name .emptyLabelName Reports.passes
  rw [List.append_nil] at h
  exact h

/-- Matchers are checked one after the other. -/
theorem reports_validateMatchers (ms : List Matcher) :
    Reports (validateMatchers ms) (ms.flatMap Matcher.violations) := by
  induction ms with
  | nil => exact .passes
  | cons m ms ih =>
    rw [List.flatMap_cons]
    exact m.reports_validate.andThen ih

/-- A selector is checked as its list of violations says. -/
theorem Selector.reports_validate (s : Selector) : Reports s.validate s.violations :=
  reports_required s.metric .emptyMetric (reports_validateMatchers s.matchers)

namespace Expr

/-- So is a parameter that need not be there, if it is as an expression. -/
theorem reports_validateParam {param : Option Expr} (h : ∀ c ∈ param.toList, Reports c.validate c.violations) :
    Reports (validateParam param) (paramViolations param) := by
  cases param with
  | none => exact .passes
  | some e => exact h e (by simp)

/-- So are arguments, one after the other, if each is as an expression. -/
theorem reports_validateArgs {args : List Expr} (h : ∀ c ∈ args, Reports c.validate c.violations) :
    Reports (validateArgs args) (argViolations args) := by
  induction args with
  | nil => exact .passes
  | cons e es ih =>
    obtain ⟨he, hes⟩ := List.forall_mem_cons.mp h
    exact he.andThen (ih hes)

/-- An expression is checked as its list of violations says: itself, and then its children. -/
theorem reports_validate (e : Expr) : Reports e.validate e.violations := by
  induction e using childInduction with
  | node e ih =>
    cases e with
    | number x => exact .passes
    | text s => exact .passes
    | selector s => exact s.reports_validate
    | subquery body w => exact ih body (by simp [children])
    | unary op e => exact ih e (by simp [children])
    | aggregation op e param g =>
      obtain ⟨he, hparam⟩ := List.forall_mem_cons.mp ih
      exact he.andThen (reports_validateParam hparam)
    | binary op l r m =>
      have hl := ih l (by simp [children])
      have hr := ih r (by simp [children])
      exact hl.andThen hr
    | call f args => exact reports_required f .emptyFunction (reports_validateArgs ih)

/-- The check of a tree passes exactly when no name is missing, and otherwise reports the first that is. -/
theorem validate_first_violation (e : Expr) :
    (e.validate = .ok () ↔ e.violations = []) ∧
    ∀ v, e.validate = .error v ↔ e.violations.head? = some v := by
  have h := e.reports_validate
  exact ⟨h.ok_iff, h.error_iff⟩

/-- The operand of an aggregation comes before its parameter, and a call before its arguments. -/
example :
    (Expr.aggregation .topk (.call "" [.selector { metric := "" }])
      (some (.selector { metric := "up", matchers := [⟨"", "api", .equal⟩] })) {}).violations =
      [.emptyFunction, .emptyMetric, .emptyLabelName] := by
  decide

end Expr

end MetricQuery
