import MetricQuery.Proofs.DraftRuns
import Mathlib.Data.List.DropRight

/-!
# What the last edits decide

A draft is edited field by field, in any order and as often as one likes, and some edits are refused. The finished node
does not depend on how the edits of different fields alternate: a field that holds one value has the one that it was
given last, or the one that it began with, and a list has what was added to it since it was replaced last,
`Workbench.run_edits_last_writes`. Labels that exclude each other, and labels that come with their keyword, are set
together and count as one field. What a new draft begins with is listed in `Workbench.Begins`.

A field is looked at from two sides. `Item.value?` and `Item.list?` say what an item holds in it, and `given?`,
`replaced?` and `added?` what an edit brings for it. `Workbench.edited_edit` says all that is to know about one edit:
which ones go through, and that one which does writes its field and leaves the others alone. All the rest follows from
it, by induction on the edits from the last to the first.
-/

set_option autoImplicit false

namespace MetricQuery

/-! ## Fields -/

/-- A field that holds one value, by the type of its values. -/
inductive ValueField : Type → Type where
  | number : ValueField Double
  | text : ValueField String
  | metric : ValueField String
  | offset : ValueField (Option String)
  | instant : ValueField (Option String)
  | range : ValueField (Option String)
  | resolution : ValueField (Option String)
  | labelName : ValueField String
  | labelValue : ValueField String
  | labelOp : ValueField MatchOp
  | operand : ValueField Expr
  | sign : ValueField Sign
  | aggregator : ValueField Aggregator
  | param : ValueField (Option Expr)
  /-- The labels that are kept and those that are dropped. -/
  | grouping : ValueField Grouping
  | operator : ValueField BinaryOp
  | left : ValueField Expr
  | right : ValueField Expr
  /-- The keyword of a pairing with its labels. -/
  | pairing : ValueField (Option MatchScope × List String)
  /-- The side of a pairing that has several elements, with the labels that it takes over. -/
  | group : ValueField (Option GroupSide × List String)
  | function : ValueField String

/-- A field that holds a list, by the type of its items. -/
inductive ListField : Type → Type where
  | matchers : ListField Matcher
  | args : ListField Expr

namespace Item

/-- What an item holds in a field, when it has the field. -/
def value? : {α : Type} → Item → ValueField α → Option α
  | _, .expr _ (.number x), .number => some x
  | _, .expr _ (.text s), .text => some s
  | _, .expr _ (.selector s), .metric => some s.metric
  | _, .expr _ (.selector s), .offset => some s.offset
  | _, .expr _ (.selector s), .instant => some s.instant
  | _, .expr _ (.selector s), .range => some s.range
  | _, .expr _ (.subquery body _), .operand => some body
  | _, .expr _ (.subquery _ w), .offset => some w.offset
  | _, .expr _ (.subquery _ w), .instant => some w.instant
  | _, .expr _ (.subquery _ w), .range => some w.range
  | _, .expr _ (.subquery _ w), .resolution => some w.resolution
  | _, .expr _ (.unary op _), .sign => some op
  | _, .expr _ (.unary _ e), .operand => some e
  | _, .expr _ (.aggregation op _ _ _), .aggregator => some op
  | _, .expr _ (.aggregation _ e _ _), .operand => some e
  | _, .expr _ (.aggregation _ _ param _), .param => some param
  | _, .expr _ (.aggregation _ _ _ g), .grouping => some g
  | _, .expr _ (.binary op _ _ _), .operator => some op
  | _, .expr _ (.binary _ l _ _), .left => some l
  | _, .expr _ (.binary _ _ r _), .right => some r
  | _, .expr _ (.binary _ _ _ m), .pairing => some (m.scope, m.labels)
  | _, .expr _ (.binary _ _ _ m), .group => some (m.side, m.carried)
  | _, .expr _ (.call f _), .function => some f
  | _, .matcher _ m, .labelName => some m.name
  | _, .matcher _ m, .labelValue => some m.value
  | _, .matcher _ m, .labelOp => some m.op
  | _, _, _ => none

/-- The list in a field of an item, if it has the field. -/
def list? : {α : Type} → Item → ListField α → Option (List α)
  | _, .expr _ (.selector s), .matchers => some s.matchers
  | _, .expr _ (.call _ args), .args => some args
  | _, _, _ => none

/-- The kind of the node in an item; a matcher is none. -/
def kind? : Item → Option Kind
  | .expr _ e => some e.kind
  | .matcher _ _ => none

/-- Whether an item is still to be built. -/
def isDraft : Item → Bool
  | .expr finished _ => !finished
  | .matcher finished _ => !finished

/-- Nodes of one kind that hold the same in every field are equal. -/
theorem expr_eq_of_fields {finished finished' : Bool} {e e' : Expr} (hkind : e.kind = e'.kind)
    (hvalue : ∀ {α : Type} (f : ValueField α), value? (.expr finished e) f = value? (.expr finished' e') f)
    (hlist : ∀ {α : Type} (f : ListField α), list? (.expr finished e) f = list? (.expr finished' e') f) : e = e' := by
  cases e with
  | number x =>
    cases e' <;> cases hkind
    cases hvalue .number
    rfl
  | text s =>
    cases e' <;> cases hkind
    cases hvalue .text
    rfl
  | selector s =>
    cases e' <;> cases hkind
    rename_i s'
    obtain ⟨metric, ms, offset, instant, range⟩ := s
    obtain ⟨metric', ms', offset', instant', range'⟩ := s'
    cases hvalue .metric
    cases hlist .matchers
    cases hvalue .offset
    cases hvalue .instant
    cases hvalue .range
    rfl
  | subquery body w =>
    cases e' <;> cases hkind
    rename_i body' w'
    obtain ⟨offset, instant, range, resolution⟩ := w
    obtain ⟨offset', instant', range', resolution'⟩ := w'
    cases hvalue .operand
    cases hvalue .offset
    cases hvalue .instant
    cases hvalue .range
    cases hvalue .resolution
    rfl
  | unary op e =>
    cases e' <;> cases hkind
    cases hvalue .sign
    cases hvalue .operand
    rfl
  | aggregation op e param g =>
    cases e' <;> cases hkind
    cases hvalue .aggregator
    cases hvalue .operand
    cases hvalue .param
    cases hvalue .grouping
    rfl
  | binary op l r m =>
    cases e' <;> cases hkind
    rename_i op' l' r' m'
    obtain ⟨scope, labels, side, carried⟩ := m
    obtain ⟨scope', labels', side', carried'⟩ := m'
    cases hvalue .operator
    cases hvalue .left
    cases hvalue .right
    cases hvalue .pairing
    cases hvalue .group
    rfl
  | call f args =>
    cases e' <;> cases hkind
    cases hvalue .function
    cases hlist .args
    rfl

/-- Items of one sort that hold the same in every field are equal. -/
theorem eq_of_fields {item item' : Item} (hkind : item.kind? = item'.kind?) (hdraft : item.isDraft = item'.isDraft)
    (hvalue : ∀ {α : Type} (f : ValueField α), item.value? f = item'.value? f)
    (hlist : ∀ {α : Type} (f : ListField α), item.list? f = item'.list? f) : item = item' := by
  cases item with
  | expr finished e =>
    cases item' with
    | expr finished' e' =>
      have he : e = e' := expr_eq_of_fields (Option.some.inj hkind) hvalue hlist
      rw [he, Bool.not_inj hdraft]
    | matcher finished' m' => cases hkind
  | matcher finished m =>
    cases item' with
    | expr finished' e' => cases hkind
    | matcher finished' m' =>
      obtain ⟨name, value, op⟩ := m
      obtain ⟨name', value', op'⟩ := m'
      cases hvalue .labelName
      cases hvalue .labelValue
      cases hvalue .labelOp
      rw [Bool.not_inj hdraft]

end Item

/-! ## What an edit brings -/

namespace ValueField

/-- The value that an edit gives a field. -/
def given? : {α : Type} → ValueField α → Edit Expr Matcher → Option α
  | _, .number, .number x => some x
  | _, .text, .text s => some s
  | _, .metric, .metric name => some name
  | _, .offset, .offset modifier => some (some modifier)
  | _, .instant, .instant modifier => some (some modifier)
  | _, .range, .range modifier => some (some modifier)
  | _, .resolution, .resolution modifier => some (some modifier)
  | _, .labelName, .labelName name => some name
  | _, .labelValue, .labelValue value => some value
  | _, .labelOp, .labelOp op => some op
  | _, .operand, .operand e => some e
  | _, .sign, .sign op => some op
  | _, .aggregator, .aggregator op => some op
  | _, .param, .param e => some (some e)
  | _, .grouping, .keep labels => some ⟨labels, []⟩
  | _, .grouping, .drop labels => some ⟨[], labels⟩
  | _, .operator, .operator op => some op
  | _, .left, .left e => some e
  | _, .right, .right e => some e
  | _, .pairing, .pair scope labels => some (some scope, labels)
  | _, .group, .group side labels => some (some side, labels)
  | _, .function, .function name => some name
  | _, _, _ => none

/-- The last value that edits give a field. -/
def last? {α : Type} (f : ValueField α) (changes : List (Edit Expr Matcher)) : Option α :=
  (changes.filterMap f.given?).getLast?

/-- One more edit is the last for the fields that it gives, and no edit for the others. -/
theorem last?_append_singleton {α : Type} (f : ValueField α) (changes : List (Edit Expr Matcher))
    (change : Edit Expr Matcher) : f.last? (changes ++ [change]) = (f.given? change).or (f.last? changes) := by
  cases hgiven : f.given? change with
  | none => simp [last?, hgiven]
  | some a => simp [last?, hgiven]

end ValueField

namespace ListField

/-- The list that an edit puts in place of a field's. -/
def replaced? : {α : Type} → ListField α → Edit Expr Matcher → Option (List α)
  | _, .matchers, .matchers ms => some ms
  | _, .args, .args es => some es
  | _, _, _ => none

/-- The item that an edit adds to a field. -/
def added? : {α : Type} → ListField α → Edit Expr Matcher → Option α
  | _, .matchers, .addMatch name op value => some ⟨name, value, op⟩
  | _, .matchers, .addMatcher m => some m
  | _, .args, .addArg e => some e
  | _, _, _ => none

variable {α : Type} (f : ListField α) (changes : List (Edit Expr Matcher)) {change : Edit Expr Matcher}

/-- The last list that edits put in place of a field's. -/
def last? : Option (List α) :=
  (changes.filterMap f.replaced?).getLast?

/-- The items that edits add to a field behind the last one that replaces its list. -/
def addedSince : List α :=
  (changes.rtakeWhile fun change => (f.replaced? change).isNone).filterMap f.added?

/-- An edit that replaces a list is the last to do so. -/
theorem last?_append_of_replaced?_eq_some {as : List α} (h : f.replaced? change = some as) :
    f.last? (changes ++ [change]) = some as := by
  simp [last?, h]

/-- One that does not leaves the last as it was. -/
theorem last?_append_of_replaced?_eq_none (h : f.replaced? change = none) :
    f.last? (changes ++ [change]) = f.last? changes := by
  simp [last?, h]

/-- Nothing has been added since a list was replaced. -/
theorem addedSince_append_of_replaced?_eq_some {as : List α} (h : f.replaced? change = some as) :
    f.addedSince (changes ++ [change]) = [] := by
  simp [addedSince, h]

/-- What an edit adds comes behind what was added before. -/
theorem addedSince_append_of_replaced?_eq_none (h : f.replaced? change = none) :
    f.addedSince (changes ++ [change]) = f.addedSince changes ++ (f.added? change).toList := by
  cases hadded : f.added? change with
  | none => simp [addedSince, h, hadded]
  | some a => simp [addedSince, h, hadded]

/-- No edit both replaces a list and adds to it. -/
theorem added?_of_replaced? {as : List α} (h : f.replaced? change = some as) : f.added? change = none := by
  cases f with
  | matchers =>
    cases change with
    | matchers ms => rfl
    | _ => cases h
  | args =>
    cases change with
    | args es => rfl
    | _ => cases h

end ListField

/-- The kinds of nodes that have the field that the edit is for. -/
def Edit.owners {ε μ : Type} : Edit ε μ → List (Option Kind)
  | .number _ => [some .number]
  | .text _ => [some .text]
  | .metric _ | .addMatch _ _ _ | .addMatcher _ | .matchers _ => [some .selector]
  | .offset _ | .instant _ | .range _ => [some .selector, some .subquery]
  | .resolution _ => [some .subquery]
  | .labelName _ | .labelValue _ | .labelOp _ => [none]
  | .operand _ => [some .subquery, some .unary, some .aggregation]
  | .sign _ => [some .unary]
  | .aggregator _ | .param _ | .keep _ | .drop _ => [some .aggregation]
  | .operator _ | .left _ | .right _ | .pair _ _ | .group _ _ => [some .binary]
  | .function _ | .addArg _ | .args _ => [some .call]

/-- A name that must not be empty is not. -/
def Edit.named {ε μ : Type} : Edit ε μ → Bool
  | .metric name | .addMatch name _ _ | .labelName name | .function name => decide (name ≠ "")
  | _ => true

/-- The item is a draft, it has the field, and the name that it is given is not empty. -/
def Item.accepts (item : Item) (change : Edit Expr Matcher) : Bool :=
  item.isDraft && (decide (item.kind? ∈ change.owners) && change.named)

/-! ## One edit -/

/-- An edit gave its field a new value, or added its item, and left everything else as it was. -/
structure Wrote (change : Edit Expr Matcher) (item item' : Item) : Prop where
  -- For one edit of one kind of node these are looked up field by field.
  value : ∀ {α : Type} (f : ValueField α),
      item'.value? f = (item.value? f).map fun old => (f.given? change).getD old := by
    intro α f
    cases f <;> rfl
  list : ∀ {α : Type} (f : ListField α),
      item'.list? f = (item.list? f).map fun old => (f.replaced? change).getD old ++ (f.added? change).toList := by
    intro α f
    cases f <;> simp [Item.list?, ListField.replaced?, ListField.added?]
  kind : item'.kind? = item.kind? := by rfl
  draft : item'.isDraft = item.isDraft := by rfl

/-- What comes of an edit: it goes through exactly when the item accepts it, and then it writes. -/
inductive Edited (change : Edit Expr Matcher) (item : Item) : Except StepFault Item → Prop where
  | done {item' : Item} (accepted : item.accepts change = true) (wrote : Wrote change item item') :
    Edited change item (.ok item')
  | refused {fault : StepFault} (unaccepted : item.accepts change = false) : Edited change item (.error fault)

namespace Workbench

/-- An edit of a matcher writes what it gives and nothing else, or fails. -/
theorem edited_matcher (change : Edit Expr Matcher) (m : Matcher) :
    Edited change (.matcher false m) (edit change (.matcher false m)) := by
  cases change with
  | labelName name =>
    by_cases hname : name = ""
    · subst hname
      exact .refused rfl
    · simp only [edit, Matcher.edit, EditFault.name_of_ne hname]
      exact .done (decide_eq_true hname) {}
  | labelValue value | labelOp op => exact .done rfl {}
  | _ => exact .refused rfl

/-- So does one of a selector. -/
theorem edited_selector (change : Edit Expr Matcher) (s : Selector) :
    Edited change (.expr false (.selector s)) (edit change (.expr false (.selector s))) := by
  cases change with
  | metric name =>
    by_cases hname : name = ""
    · subst hname
      exact .refused rfl
    · simp only [edit, Expr.edit, Selector.edit, EditFault.name_of_ne hname]
      exact .done (decide_eq_true hname) {}
  | addMatch name op value =>
    by_cases hname : name = ""
    · subst hname
      exact .refused rfl
    · simp only [edit, Expr.edit, Selector.edit, EditFault.name_of_ne hname]
      exact .done (decide_eq_true hname) {}
  | addMatcher m | matchers ms | offset modifier | instant modifier | range modifier => exact .done rfl {}
  | _ => exact .refused rfl

/-- So does one of a call. -/
theorem edited_call (change : Edit Expr Matcher) (f : String) (args : List Expr) :
    Edited change (.expr false (.call f args)) (edit change (.expr false (.call f args))) := by
  cases change with
  | function name =>
    by_cases hname : name = ""
    · subst hname
      exact .refused rfl
    · simp only [edit, Expr.edit, EditFault.name_of_ne hname]
      exact .done (decide_eq_true hname) {}
  | addArg e | args es => exact .done rfl {}
  | _ => exact .refused rfl

/-- So does one of any expression. -/
theorem edited_expr (change : Edit Expr Matcher) (e : Expr) :
    Edited change (.expr false e) (edit change (.expr false e)) := by
  cases e with
  | number x =>
    cases change with
    | number value => exact .done rfl {}
    | _ => exact .refused rfl
  | text s =>
    cases change with
    | text value => exact .done rfl {}
    | _ => exact .refused rfl
  | selector s => exact edited_selector change s
  | subquery body w =>
    cases change with
    | operand e | offset modifier | instant modifier | range modifier | resolution modifier => exact .done rfl {}
    | _ => exact .refused rfl
  | unary op e =>
    cases change with
    | sign op | operand e => exact .done rfl {}
    | _ => exact .refused rfl
  | aggregation op e param g =>
    cases change with
    | aggregator op | operand e | param p | keep labels | drop labels => exact .done rfl {}
    | _ => exact .refused rfl
  | binary op l r m =>
    cases change with
    | operator op | left l | right r | pair scope labels | group side labels => exact .done rfl {}
    | _ => exact .refused rfl
  | call f args => exact edited_call change f args

/-- An edit goes through exactly when the item accepts it, and it writes one field. -/
theorem edited_edit (change : Edit Expr Matcher) (item : Item) : Edited change item (edit change item) := by
  cases item with
  | expr finished e =>
    cases finished with
    | true => exact .refused rfl
    | false => exact edited_expr change e
  | matcher finished m =>
    cases finished with
    | true => exact .refused rfl
    | false => exact edited_matcher change m

end Workbench

/-! ## Edits in a row -/

namespace Item

/-- The item after an edit, which leaves it as it was when it is refused. -/
def afterEdit (item : Item) (change : Edit Expr Matcher) : Item :=
  match Workbench.edit change item with
  | .ok item' => item'
  | .error _ => item

/-- The item after edits, one after the other. -/
def editAll (item : Item) (changes : List (Edit Expr Matcher)) : Item :=
  changes.foldl afterEdit item

/-- The edits that go through. -/
def successes (item : Item) (changes : List (Edit Expr Matcher)) : List (Edit Expr Matcher) :=
  changes.filter item.accepts

/-- One more edit is made behind the others. -/
theorem editAll_append_singleton (item : Item) (changes : List (Edit Expr Matcher)) (change : Edit Expr Matcher) :
    item.editAll (changes ++ [change]) = (item.editAll changes).afterEdit change := by
  simp [editAll]

/-- An edit succeeds when the item accepts it. -/
theorem exists_edit_iff {item : Item} {change : Edit Expr Matcher} :
    (∃ item', Workbench.edit change item = .ok item') ↔ item.accepts change = true := by
  have h := Workbench.edited_edit change item
  cases hedit : Workbench.edit change item with
  | ok item' =>
    rw [hedit] at h
    cases h with
    | done accepted wrote => simp [accepted]
  | error fault =>
    rw [hedit] at h
    cases h with
    | refused unaccepted => simp [unaccepted]

/-- An edit that is accepted has written what it gives, and one that is not has changed nothing. -/
theorem afterEdit_cases (item : Item) (change : Edit Expr Matcher) :
    (item.accepts change = true ∧ Wrote change item (item.afterEdit change)) ∨
      item.accepts change = false ∧ item.afterEdit change = item := by
  have h := Workbench.edited_edit change item
  unfold afterEdit
  cases hedit : Workbench.edit change item with
  | ok item' =>
    rw [hedit] at h
    cases h with
    | done accepted wrote => exact .inl ⟨accepted, wrote⟩
  | error fault =>
    rw [hedit] at h
    cases h with
    | refused unaccepted => exact .inr ⟨unaccepted, rfl⟩

/-- Edits neither make another kind of node nor finish it. -/
theorem sort_editAll (item : Item) (changes : List (Edit Expr Matcher)) :
    (item.editAll changes).kind? = item.kind? ∧ (item.editAll changes).isDraft = item.isDraft := by
  induction changes using List.reverseRecOn with
  | nil => exact ⟨rfl, rfl⟩
  | append_singleton changes change ih =>
    rw [editAll_append_singleton]
    rcases afterEdit_cases (item.editAll changes) change with ⟨-, hwrote⟩ | ⟨-, hsame⟩
    · exact ⟨hwrote.kind.trans ih.1, hwrote.draft.trans ih.2⟩
    · rw [hsame]
      exact ih

/-- So an edit goes through after others exactly when it does without them. -/
theorem accepts_editAll (item : Item) (changes : List (Edit Expr Matcher)) (change : Edit Expr Matcher) :
    (item.editAll changes).accepts change = item.accepts change := by
  obtain ⟨hkind, hdraft⟩ := sort_editAll item changes
  simp only [accepts, hkind, hdraft]

/-- One more edit goes through and writes, or it is refused and does not count. -/
theorem editAll_cases (item : Item) (changes : List (Edit Expr Matcher)) (change : Edit Expr Matcher) :
    (item.successes (changes ++ [change]) = item.successes changes ++ [change] ∧
      Wrote change (item.editAll changes) (item.editAll (changes ++ [change]))) ∨
    item.successes (changes ++ [change]) = item.successes changes ∧
      item.editAll (changes ++ [change]) = item.editAll changes := by
  rw [editAll_append_singleton]
  rcases afterEdit_cases (item.editAll changes) change with ⟨haccepts, hwrote⟩ | ⟨haccepts, hsame⟩
  · rw [accepts_editAll] at haccepts
    exact .inl ⟨by simp [successes, haccepts], hwrote⟩
  · rw [accepts_editAll] at haccepts
    exact .inr ⟨by simp [successes, haccepts], hsame⟩

/-- A field has the value that it was given last. -/
theorem value?_editAll {α : Type} (item : Item) (changes : List (Edit Expr Matcher)) (f : ValueField α) :
    (item.editAll changes).value? f =
      (item.value? f).map fun start => (f.last? (item.successes changes)).getD start := by
  -- The induction takes the last edit off, which alone decides when it is for this field.
  induction changes using List.reverseRecOn with
  | nil => simp [editAll, successes, ValueField.last?]
  | append_singleton changes change ih =>
    rcases editAll_cases item changes change with ⟨hsuccesses, hwrote⟩ | ⟨hsuccesses, hsame⟩
    · rw [hwrote.value, ih, hsuccesses, f.last?_append_singleton, Option.map_map]
      cases f.given? change with
      | none => simp [Function.comp_def]
      | some a => simp [Function.comp_def]
    · rw [hsame, hsuccesses, ih]

/-- A list has the items that it was given last, and those that were added since. -/
theorem list?_editAll {α : Type} (item : Item) (changes : List (Edit Expr Matcher)) (f : ListField α) :
    (item.editAll changes).list? f = (item.list? f).map fun start =>
      (f.last? (item.successes changes)).getD start ++ f.addedSince (item.successes changes) := by
  induction changes using List.reverseRecOn with
  | nil => simp [editAll, successes, ListField.last?, ListField.addedSince]
  | append_singleton changes change ih =>
    rcases editAll_cases item changes change with ⟨hsuccesses, hwrote⟩ | ⟨hsuccesses, hsame⟩
    · rw [hwrote.list, ih, hsuccesses, Option.map_map]
      cases hreplaced : f.replaced? change with
      | none =>
        rw [f.last?_append_of_replaced?_eq_none _ hreplaced, f.addedSince_append_of_replaced?_eq_none _ hreplaced]
        simp [Function.comp_def]
      | some as =>
        rw [f.last?_append_of_replaced?_eq_some _ hreplaced, f.addedSince_append_of_replaced?_eq_some _ hreplaced,
          f.added?_of_replaced? hreplaced]
        simp [Function.comp_def]
    · rw [hsame, hsuccesses, ih]

/-- The edits that go through end in the same values, the same lists and the same added items. -/
structure SameWrites (item : Item) (changes changes' : List (Edit Expr Matcher)) : Prop where
  value {α : Type} (f : ValueField α) : f.last? (item.successes changes) = f.last? (item.successes changes')
  list {α : Type} (f : ListField α) : f.last? (item.successes changes) = f.last? (item.successes changes')
  added {α : Type} (f : ListField α) :
    f.addedSince (item.successes changes) = f.addedSince (item.successes changes')

/-- In what order the edits of different fields come does not matter. -/
theorem editAll_eq_of_sameWrites {item : Item} {changes changes' : List (Edit Expr Matcher)}
    (h : item.SameWrites changes changes') : item.editAll changes = item.editAll changes' := by
  obtain ⟨hkind, hdraft⟩ := sort_editAll item changes
  obtain ⟨hkind', hdraft'⟩ := sort_editAll item changes'
  apply eq_of_fields
  · rw [hkind, hkind']
  · rw [hdraft, hdraft']
  · intro α f
    rw [value?_editAll, value?_editAll, h.value]
  · intro α f
    rw [list?_editAll, list?_editAll, h.list, h.added]

end Item

/-! ## Edits of a slot -/

/-- Whether a step puts a new draft into its slot. -/
def Step.isNew : Step → Bool
  | .make _ _ | .matcher _ => true
  | _ => false

namespace Item

/-- A finished item holds what the draft held. -/
theorem value?_finish {α : Type} (item : Item) (f : ValueField α) : item.finish.value? f = item.value? f := by
  cases item with
  | expr finished e => cases e <;> cases f <;> rfl
  | matcher finished m => cases f <;> rfl

/-- A finished item has the lists of the draft. -/
theorem list?_finish {α : Type} (item : Item) (f : ListField α) : item.finish.list? f = item.list? f := by
  cases item with
  | expr finished e => cases e <;> cases f <;> rfl
  | matcher finished m => cases f <;> rfl

/-- A finished item is of the draft's kind, and no draft. -/
theorem sort_finish (item : Item) : item.finish.kind? = item.kind? ∧ item.finish.isDraft = false := by
  cases item <;> exact ⟨rfl, rfl⟩

end Item

namespace Workbench

/-- The edits that a slot receives in a row, each with copies of what the slots hold by then. One that names a slot in
vain is left out. -/
def received (bench : Workbench) (slot : String) : List (Edit String String) → List (Edit Expr Matcher)
  | [] => []
  | call :: calls =>
    (bench.resolve call).toOption.toList ++ received (bench.step slot (.edit call)) slot calls

/-- A call that edits a slot edits what stands in it, if its arguments stand for something. -/
theorem get?_step_edit (bench : Workbench) (slot : String) (call : Edit String String) :
    (bench.step slot (.edit call)).get? slot =
      (bench.get? slot).map fun item => item.editAll (bench.resolve call).toOption.toList := by
  cases hslot : bench.get? slot with
  | none =>
    have hresult : bench.result slot (.edit call) = .error (.unfit slot) := by
      simp [result, item, hslot, bind, Except.bind]
    simp [step, hresult, hslot]
  | some old =>
    cases hresolve : bench.resolve call with
    | error fault =>
      have hresult : bench.result slot (.edit call) = .error fault := by
        simp [result, item, hslot, hresolve, bind, Except.bind]
      simp [step, hresult, hslot, Item.editAll, Except.toOption]
    | ok change =>
      have hresult : bench.result slot (.edit call) = edit change old := by
        simp [result, item, hslot, hresolve, bind, Except.bind]
      cases hedit : edit change old with
      | error fault => simp [step, hresult, hslot, hedit, Item.editAll, Item.afterEdit, Except.toOption]
      | ok new => simp [step, hresult, hedit, Item.editAll, Item.afterEdit, Except.toOption]

/-- A slot that is edited in a run holds its item after the edits that it received. -/
theorem get?_run_edits (bench : Workbench) (slot : String) (calls : List (Edit String String)) :
    (bench.run (calls.map fun call => (slot, .edit call))).get? slot =
      (bench.get? slot).map fun item => item.editAll (bench.received slot calls) := by
  induction calls generalizing bench with
  | nil => simp [run, received, Item.editAll]
  | cons call calls ih =>
    have hrun : bench.run ((call :: calls).map fun call => (slot, Step.edit call)) =
        (bench.step slot (.edit call)).run (calls.map fun call => (slot, .edit call)) := by
      simp [run]
    rw [hrun, ih, get?_step_edit, Option.map_map]
    simp [Function.comp_def, received, Item.editAll]

/-! ## From a new draft to the finished node -/

/-- A new draft, with all that it begins with: the node that its form makes of copies of the arguments, or a matcher
that compares its label with the empty string. -/
inductive Begins (bench : Workbench) : Step → Item → Prop
  | node {form : Form} {args : List (Argument String)} {values : List (Argument Expr)} {e : Expr}
      (copies : bench.arguments args = .ok values) (makes : form.Makes values e) :
      Begins bench (.make form args) (.expr false e)
  | matcher {name : String} (named : name ≠ "") : Begins bench (.matcher name) (.matcher false ⟨name, "", .equal⟩)

/-- The steps from a new draft in one slot, over edits, to the finished node in another. -/
def builderSteps (slot built : String) (new : Step) (calls : List (Edit String String)) : List (String × Step) :=
  (slot, new) :: calls.map (fun call => (slot, .edit call)) ++ [(built, .finish slot)]

/-- The edits of a new draft that go through, with copies of what the slots hold by then. -/
def writes (bench : Workbench) (slot : String) (item : Item) (calls : List (Edit String String)) :
    List (Edit Expr Matcher) :=
  item.successes ((bench.put slot item).received slot calls)

section Builder

variable {bench : Workbench} {new : Step} {item : Item}

/-- New drafts are those that are listed. -/
theorem result_eq_ok_iff_begins (slot : String) (hnew : new.isNew = true) :
    bench.result slot new = .ok item ↔ bench.Begins new item := by
  cases new with
  | make form args =>
    simp only [result, bind_eq_ok_iff]
    constructor
    · rintro ⟨values, hvalues, hmade⟩
      cases hmake : form.make values with
      | ok e =>
        simp only [hmake] at hmade
        cases hmade
        exact .node hvalues (Form.makes_of_make hmake)
      | error fault =>
        simp only [hmake] at hmade
        cases hmade
    · intro h
      cases h with
      | node copies makes =>
        refine ⟨_, copies, ?_⟩
        simp only [Form.make_eq_ok_iff.mpr makes]
        rfl
  | matcher name =>
    simp only [result]
    constructor
    · intro h
      split at h
      · rename_i hrequired
        cases h
        obtain ⟨rfl, hne⟩ := required_eq_ok_iff.mp hrequired
        exact .matcher hne
      · cases h
    · intro h
      cases h with
      | matcher named =>
        simp only [required_eq_ok_iff.mpr ⟨rfl, named⟩]
        rfl
  | _ => cases hnew

/-- New drafts come from the steps for them. -/
theorem Begins.isNew (h : bench.Begins new item) : new.isNew = true := by
  cases h <;> rfl

/-- A new draft can be edited. -/
theorem Begins.isDraft (h : bench.Begins new item) : item.isDraft = true := by
  cases h <;> rfl

/-- The matchers of a new draft are none, and its arguments are those that its call was made with. -/
theorem Begins.list? (h : bench.Begins new item) :
    (∀ ms, item.list? .matchers = some ms → ms = []) ∧
    ∀ es, item.list? .args = some es → ∃ form args values, new = .make form args ∧
      bench.arguments args = .ok values ∧ es = values.flatMap Argument.exprs := by
  cases h with
  | matcher named => exact ⟨nofun, nofun⟩
  | node copies makes =>
    cases makes with
    | selector named =>
      refine ⟨fun ms hms => ?_, nofun⟩
      cases hms
      rfl
    | call args named | named function args =>
      refine ⟨nofun, fun es hes => ?_⟩
      cases hes
      exact ⟨_, _, _, rfl, copies, rfl⟩
    | _ => exact ⟨nofun, nofun⟩

/-- The finished node is the new draft after the edits that it received. -/
theorem get?_run_builderSteps (slot built : String) (calls : List (Edit String String)) (h : bench.Begins new item) :
    (bench.run (builderSteps slot built new calls)).get? built =
      some (item.editAll ((bench.put slot item).received slot calls)).finish := by
  have hstart : bench.step slot new = bench.put slot item := by
    rw [step, (result_eq_ok_iff_begins slot h.isNew).mpr h]
  have hedits := get?_run_edits (bench.put slot item) slot calls
  rw [get?_put, if_pos rfl, Option.map_some] at hedits
  have hrun : bench.run (builderSteps slot built new calls) =
      ((bench.put slot item).run (calls.map fun call => (slot, .edit call))).step built (.finish slot) := by
    simp [run, builderSteps, hstart]
  rw [hrun, step]
  simp [result, Workbench.item, hedits, bind, Except.bind, pure, Except.pure]

end Builder

/-- A draft that is made new, edited in any number and order of steps, and finished. There is a finished node, of the
kind of the new draft. Every field with one value has the one that it was given last by an edit that went through, or
the one that it began with; every list has the items that it was given last, or those that it began with, and behind
them the ones that were added since, in order. A draft begins with what `Begins` lists, which is all that a step for a
new draft can come to: without matchers, and with the arguments that its call is made with. Which edits go through
depends on the kind of the draft and on the edit alone. So edits that end in the same values, lists and added items make
equal nodes. -/
theorem run_edits_last_writes :
    (∀ (bench : Workbench) (slot built : String) (new : Step) (item : Item) (calls : List (Edit String String)),
      bench.Begins new item →
      ∃ node, (bench.run (builderSteps slot built new calls)).get? built = some node ∧ node.isDraft = false ∧
        node.kind? = item.kind? ∧
        (∀ (α : Type) (f : ValueField α), node.value? f =
          (item.value? f).map fun start => (f.last? (bench.writes slot item calls)).getD start) ∧
        ∀ (α : Type) (f : ListField α), node.list? f = (item.list? f).map fun start =>
          (f.last? (bench.writes slot item calls)).getD start ++ f.addedSince (bench.writes slot item calls)) ∧
    (∀ (bench : Workbench) (slot : String) (new : Step) (item : Item), new.isNew = true →
      (bench.result slot new = .ok item ↔ bench.Begins new item)) ∧
    (∀ (bench : Workbench) (new : Step) (item : Item), bench.Begins new item →
      (∀ ms, item.list? .matchers = some ms → ms = []) ∧
      ∀ es, item.list? .args = some es → ∃ form args values, new = .make form args ∧
        bench.arguments args = .ok values ∧ es = values.flatMap Argument.exprs) ∧
    (∀ (item : Item) (changes : List (Edit Expr Matcher)) (change : Edit Expr Matcher),
      (∃ item', edit change (item.editAll changes) = .ok item') ↔ item.accepts change = true) ∧
    ∀ (bench : Workbench) (slot built : String) (new : Step) (item : Item) (calls calls' : List (Edit String String)),
      bench.Begins new item →
      item.SameWrites ((bench.put slot item).received slot calls) ((bench.put slot item).received slot calls') →
      (bench.run (builderSteps slot built new calls)).get? built =
        (bench.run (builderSteps slot built new calls')).get? built := by
  refine ⟨?_, ?_, ?_, ?_, ?_⟩
  · intro bench slot built new item calls h
    refine ⟨_, get?_run_builderSteps slot built calls h, (Item.sort_finish _).2, ?_, ?_, ?_⟩
    · rw [(Item.sort_finish _).1, (item.sort_editAll _).1]
    · intro α f
      rw [Item.value?_finish, Item.value?_editAll]
      rfl
    · intro α f
      rw [Item.list?_finish, Item.list?_editAll]
      rfl
  · intro bench slot new item hnew
    exact result_eq_ok_iff_begins slot hnew
  · intro bench new item h
    exact h.list?
  · intro item changes change
    rw [Item.exists_edit_iff, Item.accepts_editAll]
  · intro bench slot built new item calls calls' h hsame
    rw [get?_run_builderSteps slot built calls h, get?_run_builderSteps slot built calls' h,
      Item.editAll_eq_of_sameWrites hsame]

/-- A workbench with a matcher for the jobs of an interface. -/
def jobBench : Workbench :=
  run {} [("job", .matcher "job"), ("job", .edit (.labelValue "api"))]

/-- Edits of a selector that rename it before a name is refused, set the offset twice and drop a matcher again. -/
def roundaboutCalls : List (Edit String String) :=
  [.metric "requests", .offset "1h", .addMatch "env" .equal "dev", .metric "", .matchers ["job"], .offset "5m",
    .addMatch "code" .notEqual "200"]

/-- Edits that give the same values once, in another order. -/
def directCalls : List (Edit String String) :=
  [.matchers ["job"], .addMatch "code" .notEqual "200", .offset "5m", .metric "requests"]

/-- A new selector becomes the same node by either list of edits: it is called what it was called last, has the offset
that it was given last and no range, and has the matchers that it was given and the one that was added behind them. -/
theorem run_edits_last_writes_selector :
    (jobBench.run (builderSteps "up" "query" (.make .selector [.text "up"]) roundaboutCalls)).get? "query" =
      some (.expr true (.selector
        ⟨"requests", [⟨"job", "api", .equal⟩, ⟨"code", "200", .notEqual⟩], some "5m", none, none⟩)) ∧
    (jobBench.run (builderSteps "up" "query" (.make .selector [.text "up"]) roundaboutCalls)).get? "query" =
      (jobBench.run (builderSteps "up" "query" (.make .selector [.text "up"]) directCalls)).get? "query" := by
  obtain ⟨hbuilt, hnew, -, -, hequal⟩ := run_edits_last_writes
  have hbegins : jobBench.Begins (.make .selector [.text "up"])
      (.expr false (.selector ⟨"up", [], none, none, none⟩)) :=
    (hnew jobBench "up" _ _ rfl).mp rfl
  obtain ⟨node, hnode, hdraft, hkind, hvalue, hlist⟩ := hbuilt jobBench "up" "query" _ _ roundaboutCalls hbegins
  constructor
  · rw [hnode]
    refine congrArg some (Item.eq_of_fields hkind hdraft ?_ ?_)
    · intro α f
      rw [hvalue]
      cases f <;> rfl
    · intro α f
      rw [hlist]
      cases f <;> rfl
  · refine hequal jobBench "up" "query" _ _ _ _ hbegins ⟨?_, ?_, ?_⟩
    all_goals
      intro α f
      cases f <;> rfl

end Workbench

end MetricQuery
