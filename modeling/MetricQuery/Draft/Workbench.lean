import MetricQuery.Association
import MetricQuery.Draft.Edit
import MetricQuery.Draft.Form
import MetricQuery.Expr.Load
import MetricQuery.Expr.Render

/-!
# The workbench

Queries are put together step by step on a workbench, a store of named slots. A slot holds an
expression or a matcher, as a draft whose outermost node can still be edited, or finished.

A step computes what its slot holds next. Where it names other slots it takes copies of what they
hold, so a later change to one slot never shows in another. A step that fails leaves the workbench as
it was.
-/

set_option autoImplicit false

namespace MetricQuery

/-- What a slot holds. -/
inductive Item where
  | expr (finished : Bool) (e : Expr)
  | matcher (finished : Bool) (m : Matcher)

namespace Item

/-- The item as it is built: a draft becomes a finished expression or matcher. -/
def finish : Item → Item
  | expr _ e => expr true e
  | matcher _ m => matcher true m

/-- The text of an item. -/
def chars : Item → List Char
  | expr _ e => e.chars
  | matcher _ m => m.chars

/-- Equality of what two items hold, drafts or not. -/
def same : Item → Item → Bool
  | expr _ a, expr _ b => a.same b
  | matcher _ m, matcher _ n => decide (m = n)
  | _, _ => false

end Item

/-- Why a step fails. -/
inductive StepFault where
  | invalid (violation : Violation)
  /-- The text of a stored tree cannot be loaded. -/
  | load (fault : LoadFault)
  /-- A slot that the step names holds nothing, or nothing of the wanted sort. -/
  | unfit (slot : String)
  /-- The edit or the arguments do not fit. -/
  | misplaced

namespace StepFault

/-- The fault of a step that edits. -/
def ofEdit : EditFault → StepFault
  | .invalid v => invalid v
  | .misplaced => misplaced

/-- The fault of a step that makes something. -/
def ofForm : FormFault → StepFault
  | .invalid v => invalid v
  | .mismatch => misplaced

end StepFault

/-- What to do with a slot. Operands and matchers are given by the slots that hold them. -/
inductive Step where
  /-- A new draft of an expression. -/
  | make (form : Form) (args : List (Argument String))
  /-- A new draft of a matcher, which compares the label with the empty string. -/
  | matcher (name : String)
  | edit (change : Edit String String)
  | copy (source : String)
  | finish (source : String)
  /-- The finished tree of a stored text. -/
  | load (text : String)

/-- The slots with what stands in them. -/
structure Workbench where
  slots : Association String Item := []

namespace Workbench

/-- What stands in a slot. -/
def get? (bench : Workbench) (slot : String) : Option Item :=
  bench.slots.lookup slot

/-- Puts an item into a slot, over what stands there. -/
def put (bench : Workbench) (slot : String) (item : Item) : Workbench :=
  ⟨bench.slots.put slot item⟩

/-- A slot holds what was put there last. -/
@[simp]
theorem get?_put (bench : Workbench) (slot other : String) (item : Item) :
    (bench.put slot item).get? other = if other = slot then some item else bench.get? other :=
  Association.lookup_put bench.slots slot other item

/-- What a slot holds. -/
def item (bench : Workbench) (slot : String) : Except StepFault Item :=
  match bench.get? slot with
  | some item => .ok item
  | none => .error (.unfit slot)

/-- The expression in a slot, a draft taken as it is. -/
def expr (bench : Workbench) (slot : String) : Except StepFault Expr :=
  match bench.get? slot with
  | some (.expr _ e) => .ok e
  | _ => .error (.unfit slot)

/-- The matcher in a slot, a draft taken as it is. -/
def matcher (bench : Workbench) (slot : String) : Except StepFault Matcher :=
  match bench.get? slot with
  | some (.matcher _ m) => .ok m
  | _ => .error (.unfit slot)

/-- The contents of several slots, in order. -/
def each {α : Type} (fetch : String → Except StepFault α) : List String → Except StepFault (List α)
  | [] => .ok []
  | slot :: slots => do
    let a ← fetch slot
    let as ← each fetch slots
    return a :: as

/-- The argument that stands for slots with what stands in them. -/
def argument (bench : Workbench) : Argument String → Except StepFault (Argument Expr)
  | .operand slot => do return .operand (← bench.expr slot)
  | .number x => .ok (.number x)
  | .text s => .ok (.text s)
  | .texts ss => .ok (.texts ss)

/-- The same for a list of arguments. -/
def arguments (bench : Workbench) : List (Argument String) → Except StepFault (List (Argument Expr))
  | [] => .ok []
  | arg :: args => do
    let a ← bench.argument arg
    let as ← bench.arguments args
    return a :: as

/-- The edit with copies of what the slots hold that it names. -/
def resolve (bench : Workbench) : Edit String String → Except StepFault (Edit Expr Matcher)
  | .number value => .ok (.number value)
  | .text value => .ok (.text value)
  | .metric name => .ok (.metric name)
  | .addMatch name op value => .ok (.addMatch name op value)
  | .addMatcher slot => do return .addMatcher (← bench.matcher slot)
  | .matchers slots => do return .matchers (← each bench.matcher slots)
  | .offset modifier => .ok (.offset modifier)
  | .instant modifier => .ok (.instant modifier)
  | .range modifier => .ok (.range modifier)
  | .resolution modifier => .ok (.resolution modifier)
  | .labelName name => .ok (.labelName name)
  | .labelValue value => .ok (.labelValue value)
  | .labelOp op => .ok (.labelOp op)
  | .operand slot => do return .operand (← bench.expr slot)
  | .sign op => .ok (.sign op)
  | .aggregator op => .ok (.aggregator op)
  | .param slot => do return .param (← bench.expr slot)
  | .keep labels => .ok (.keep labels)
  | .drop labels => .ok (.drop labels)
  | .operator op => .ok (.operator op)
  | .left slot => do return .left (← bench.expr slot)
  | .right slot => do return .right (← bench.expr slot)
  | .pair scope labels => .ok (.pair scope labels)
  | .group side labels => .ok (.group side labels)
  | .function name => .ok (.function name)
  | .addArg slot => do return .addArg (← bench.expr slot)
  | .args slots => do return .args (← each bench.expr slots)

/-- Edits a draft; what is finished stays as it is. -/
def edit (change : Edit Expr Matcher) : Item → Except StepFault Item
  | .expr false e =>
    match e.edit change with
    | .ok e => .ok (.expr false e)
    | .error f => .error (.ofEdit f)
  | .matcher false m =>
    match m.edit change with
    | .ok m => .ok (.matcher false m)
    | .error f => .error (.ofEdit f)
  | _ => .error .misplaced

/-- What a slot holds after a step. -/
def result (bench : Workbench) (slot : String) : Step → Except StepFault Item
  | .make form args => do
    match form.make (← bench.arguments args) with
    | .ok e => return .expr false e
    | .error f => throw (.ofForm f)
  | .matcher name =>
    match required name .emptyLabelName with
    | .ok name => .ok (.matcher false ⟨name, "", .standard⟩)
    | .error v => .error (.invalid v)
  | .edit change => do
    let item ← bench.item slot
    edit (← bench.resolve change) item
  | .copy source => bench.item source
  | .finish source => do return (← bench.item source).finish
  | .load text =>
    match Expr.load text.toList with
    | .ok e => .ok (.expr true e)
    | .error f => .error (.load f)

/-- The workbench after a step on a slot. -/
def step (bench : Workbench) (slot : String) (s : Step) : Workbench :=
  match bench.result slot s with
  | .ok item => bench.put slot item
  | .error _ => bench

/-- The workbench after steps on the slots that stand with them. -/
def run (bench : Workbench) (steps : List (String × Step)) : Workbench :=
  steps.foldl (fun bench entry => bench.step entry.1 entry.2) bench

end Workbench

end MetricQuery
