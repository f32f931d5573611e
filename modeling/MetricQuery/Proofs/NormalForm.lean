import MetricQuery.Expr.Basic
import MetricQuery.Proofs.Nodes

/-!
# Normal form of trees

Several trees have the same query text. A modifier that is given and empty is not written, nor is the
resolution of a subquery without a range; labels of a pairing are written only behind their keyword; all
NaNs look alike; and a negative number is written like a positive one with a sign before it.
`Expr.normal` picks one tree of each kind, the one that a reader of the text can be expected to find.

`normal_eq_self` says which trees it leaves alone: those in which nothing of the above occurs.
-/

set_option autoImplicit false

namespace MetricQuery

/-- The selector without empty modifiers. -/
def Selector.normal (s : Selector) : Selector :=
  { s with offset := present s.offset, instant := present s.instant, range := present s.range }

/-- The window without empty modifiers, and without a resolution that no range goes with. -/
def Window.normal (w : Window) : Window where
  offset := present w.offset
  instant := present w.instant
  range := present w.range
  resolution := if (present w.range).isSome then present w.resolution else none

/-- The pairing without labels that lack their keyword. -/
def Matching.normal (m : Matching) : Matching where
  scope := m.scope
  labels := if m.scope.isSome then m.labels else []
  side := m.side
  carried := if m.side.isSome then m.carried else []

/-- The tree of a number's text. -/
def Double.normalExpr (x : Double) : Expr :=
  if x.isNaN then .number .nan
  else if x.isNegative then .unary .minus (.number x.abs)
  else .number x

namespace Expr

mutual

/-- The normal form of a tree, at every depth. -/
def normal : Expr → Expr
  | number x => x.normalExpr
  | text s => text s
  | selector s => selector s.normal
  | subquery body w => subquery body.normal w.normal
  | unary op e => unary op e.normal
  | aggregation op e param g => aggregation op e.normal (normalParam param) g
  | binary op l r m => binary op l.normal r.normal m.normal
  | call f args => call f (normalArgs args)

/-- The normal form of a parameter. -/
def normalParam : Option Expr → Option Expr
  | none => none
  | some e => some e.normal

/-- The normal form of arguments. -/
def normalArgs : List Expr → List Expr
  | [] => []
  | e :: es => e.normal :: normalArgs es

end

/-- The normal form of a parameter is that of the expression, if it is there. -/
theorem normalParam_eq_map (param : Option Expr) : normalParam param = param.map normal := by
  cases param <;> rfl

/-- The normal form of arguments is that of each. -/
theorem normalArgs_eq_map (args : List Expr) : normalArgs args = args.map normal := by
  induction args with
  | nil => rfl
  | cons e es ih => rw [normalArgs, ih, List.map_cons]

/-- Nothing at the node itself is written like something else. -/
def IsNormal : Expr → Prop
  | number x => x = .nan ∨ (x.isNaN = false ∧ x.isNegative = false)
  | selector s => s.normal = s
  | subquery _ w => w.normal = w
  | binary _ _ _ m => m.normal = m
  | _ => True

/-- A tree of nodes in normal form is its own normal form. -/
theorem normal_eq_self {e : Expr} (h : e.All IsNormal) : e.normal = e := by
  induction e using childInduction with
  | node e ih =>
    have hroot := h.root
    have hbelow : ∀ c ∈ e.children, c.normal = c := by
      intro c hc
      exact ih c hc (h.child c hc)
    cases e with
    | number x =>
      rcases hroot with rfl | ⟨hnan, hneg⟩
      · rfl
      · simp [normal, Double.normalExpr, hnan, hneg]
    | text s => rfl
    | selector s => rw [normal, show s.normal = s from hroot]
    | subquery body w =>
      rw [normal, show w.normal = w from hroot, hbelow body List.mem_cons_self]
    | unary op e => rw [normal, hbelow e List.mem_cons_self]
    | aggregation op e param g =>
      rw [normal, hbelow e List.mem_cons_self, normalParam_eq_map]
      cases param with
      | none => rfl
      | some p => rw [Option.map_some, hbelow p (List.mem_cons_of_mem _ List.mem_cons_self)]
    | binary op l r m =>
      rw [normal, show m.normal = m from hroot, hbelow l List.mem_cons_self,
        hbelow r (List.mem_cons_of_mem _ List.mem_cons_self)]
    | call f args =>
      have hargs : args.map normal = args := by
        have hid : args.map normal = args.map id := List.map_congr_left hbelow
        rw [hid, List.map_id]
      rw [normal, normalArgs_eq_map, hargs]

end Expr

end MetricQuery
