import MetricQuery.Expr.Decode
import MetricQuery.Expr.Encode
import MetricQuery.Proofs.Nodes

/-!
# Decoding encoded trees

The JSON value of a tree is decoded as the tree itself, unless the tree holds a number that JSON has no text
for. Such a number is encoded as `null`, and decoding fails at the first of them.

A node is decoded from its fields in the order in which they are written, so the statement about one node
takes the results for its children as an assumption, and the recursion is along the height of the value.
-/

set_option autoImplicit false

namespace MetricQuery

/-! ## Names -/

/-- No two values of the vocabulary share a name. -/
class LawfulVocabulary (α : Type) [Vocabulary α] : Prop where
  ofName?_name : ∀ a : α, Vocabulary.ofName? (Vocabulary.name a) = some a

instance : LawfulVocabulary BinaryOp where
  ofName?_name a := by cases a <;> rfl

instance : LawfulVocabulary Sign where
  ofName?_name a := by cases a <;> rfl

instance : LawfulVocabulary Aggregator where
  ofName?_name a := by cases a <;> rfl

instance : LawfulVocabulary MatchOp where
  ofName?_name a := by cases a <;> rfl

instance : LawfulVocabulary MatchScope where
  ofName?_name a := by cases a <;> rfl

instance : LawfulVocabulary GroupSide where
  ofName?_name a := by cases a <;> rfl

instance : LawfulVocabulary Kind where
  ofName?_name a := by cases a <;> rfl

namespace Decode

/-- A name is decoded as what it names. -/
theorem named_name {α : Type} [Vocabulary α] [LawfulVocabulary α] (a : α) :
    named α (Vocabulary.name a) = .ok a := by
  unfold named
  rw [LawfulVocabulary.ofName?_name]

/-- An encoded operator is decoded as itself. -/
theorem operator_encodeName {α : Type} [Vocabulary α] [LawfulVocabulary α] (a : α) :
    operator (encodeName a) = .ok a :=
  named_name a

/-! ## Lists -/

/-- A list is decoded item by item. -/
theorem list_map {α : Type} {item : Json → Decoded α} {encode : α → Json}
    (h : ∀ a, item (encode a) = .ok a) (as : List α) : list item (.array (as.map encode)) = .ok as := by
  show items item (as.map encode) = .ok as
  induction as with
  | nil => rfl
  | cons a as ih =>
    rw [List.map_cons, items, h, ih]
    rfl

/-- A list of labels is decoded as itself. -/
theorem labels_map (ls : List String) : labels (.array (ls.map .string)) = .ok ls :=
  list_map (fun l => (rfl : text (.string l) = .ok l)) ls

/-! ## Members -/

section Gather

variable {σ : Type} {put : σ → String → Json → Decoded σ} {f g : σ}

/-- A member that is put among the fields is followed by the others. -/
theorem gather_cons {key : String} {j : Json} {ms : List (String × Json)} (h : put f key j = .ok g) :
    gather put f ((key, j) :: ms) = gather put g ms := by
  rw [gather, h]
  rfl

/-- A member that cannot be put among the fields is the end of it. -/
theorem gather_cons_error {key : String} {j : Json} {ms : List (String × Json)} {x : DataFault}
    (h : put f key j = .error x) : gather put f ((key, j) :: ms) = .error x := by
  rw [gather, h]
  rfl

/-- Members are gathered one group behind the other. -/
theorem gather_append {xs ys : List (String × Json)} (h : gather put f xs = .ok g) :
    gather put f (xs ++ ys) = gather put g ys := by
  induction xs generalizing f with
  | nil =>
    cases h
    rfl
  | cons m xs ih =>
    obtain ⟨key, j⟩ := m
    cases hput : put f key j with
    | error e =>
      rw [gather, hput] at h
      cases h
    | ok f' =>
      rw [gather_cons hput] at h
      rw [List.cons_append, gather_cons hput]
      exact ih h

/-- A group of members that cannot be gathered is the end of it. -/
theorem gather_append_error {xs ys : List (String × Json)} {x : DataFault}
    (h : gather put f xs = .error x) : gather put f (xs ++ ys) = .error x := by
  induction xs generalizing f with
  | nil => cases h
  | cons m xs ih =>
    obtain ⟨key, j⟩ := m
    cases hput : put f key j with
    | error e =>
      rw [gather_cons_error hput] at h
      rw [List.cons_append, gather_cons_error hput, h]
    | ok f' =>
      rw [gather_cons hput] at h
      rw [List.cons_append, gather_cons hput]
      exact ih h

/-- A member that may be left out sets its field to what is given. -/
theorem gather_optional {α : Type} {key : String} {encode : α → Json} (set : Option α → σ)
    (hput : ∀ a, put (set none) key (encode a) = .ok (set (some a))) (v : Option α) :
    gather put (set none) (optionalMember key encode v) = .ok (set v) := by
  cases v with
  | none => rfl
  | some a => exact gather_cons (hput a)

/-- A list of labels, which is written only if it has any, is gathered as itself. -/
theorem gather_labels {key : String} (set : List String → σ)
    (hput : ∀ l ls, put (set []) key (.array ((l :: ls).map .string)) = .ok (set (l :: ls)))
    (ls : List String) : gather put (set []) (labelsMember key ls) = .ok (set ls) := by
  cases ls with
  | nil => rfl
  | cons l ls => exact gather_cons (hput l ls)

end Gather

/-! ## Fields without expressions -/

/-- An encoded matcher is decoded as itself. -/
theorem matcher_encode (m : Matcher) : matcher m.encode = .ok m := by
  have hop : operator (encodeName m.op) = .ok m.op := operator_encodeName m.op
  have hgather : gather MatcherFields.put {} [("name", .string m.name), ("value", .string m.value),
      ("operator", encodeName m.op)] = .ok ⟨some m.name, some m.value, some m.op⟩ := by
    rw [gather_cons (rfl : MatcherFields.put {} "name" (.string m.name) = .ok { name := some m.name }),
      gather_cons (rfl : MatcherFields.put { name := some m.name } "value" (.string m.value) =
        .ok { name := some m.name, value := some m.value })]
    apply gather_cons
    show (fill none "operator" (operator (encodeName m.op))).bind _ = _
    rw [hop]
    rfl
  show (gather MatcherFields.put {} _).bind _ = _
  rw [hgather]
  rfl

/-- So is an operator that need not be there. -/
theorem option_operator {α : Type} [Vocabulary α] [LawfulVocabulary α] (a : α) :
    option operator (encodeName a) = .ok (some a) := by
  show (operator (encodeName a)).bind _ = _
  rw [operator_encodeName]
  rfl

/-- A list of labels as a field, which is empty when the list is left out. -/
def given : List String → Option (List String)
  | [] => none
  | ls => some ls

/-- A list of labels that is written only if it has any has none where it is not. -/
theorem getD_given (ls : List String) : (given ls).getD [] = ls := by
  cases ls <;> rfl

/-- A field that is given or not is taken as it is. -/
theorem join_map_some {α : Type} (v : Option α) : (v.map some).join = v := by
  cases v <;> rfl

/-- An encoded selector is decoded as itself. -/
theorem selector_members (s : Selector) : selector (.object s.members) = .ok s := by
  have hlabels : list matcher (.array (s.matchers.map Matcher.encode)) = .ok s.matchers :=
    list_map matcher_encode s.matchers
  let fields : Option String → Option String → Option String → SelectorFields := fun o i r =>
    ⟨some s.metric, some s.matchers, o.map some, i.map some, r.map some⟩
  have hfirst : gather SelectorFields.put {} [("metric", .string s.metric),
      ("labels", .array (s.matchers.map Matcher.encode))] = .ok (fields none none none) := by
    rw [gather_cons (rfl : SelectorFields.put {} "metric" (.string s.metric) =
      .ok { metric := some s.metric })]
    apply gather_cons
    show (fill none "labels" (list matcher _)).bind _ = _
    rw [hlabels]
    rfl
  have hoffset : gather SelectorFields.put (fields none none none) (textMember "offset" s.offset) =
      .ok (fields s.offset none none) :=
    gather_optional (fun o => fields o none none) (fun a => rfl) s.offset
  have hinstant : gather SelectorFields.put (fields s.offset none none) (textMember "at" s.instant) =
      .ok (fields s.offset s.instant none) :=
    gather_optional (fun i => fields s.offset i none) (fun a => rfl) s.instant
  have hrange : gather SelectorFields.put (fields s.offset s.instant none) (textMember "range" s.range) =
      .ok (fields s.offset s.instant s.range) :=
    gather_optional (fun r => fields s.offset s.instant r) (fun a => rfl) s.range
  have hgather : gather SelectorFields.put {} s.members = .ok (fields s.offset s.instant s.range) := by
    unfold Selector.members
    rw [List.append_assoc, List.append_assoc, gather_append hfirst, gather_append hoffset,
      gather_append hinstant, hrange]
  show (gather SelectorFields.put {} s.members).bind _ = _
  rw [hgather]
  show Except.ok (Selector.mk s.metric s.matchers (s.offset.map some).join (s.instant.map some).join
    (s.range.map some).join) = _
  rw [join_map_some, join_map_some, join_map_some]

end Decode

/-! ## Trees of finite numbers -/

namespace Expr

/-- The members of a node's object behind its kind. -/
def fields : Expr → List (String × Json)
  | number x => [("value", encodeNumber x)]
  | text s => [("value", .string s)]
  | selector s => s.members
  | subquery body w => ("expr", body.encode) :: w.members
  | unary op e => [("op", encodeName op), ("expr", e.encode)]
  | aggregation op e param g =>
    [("op", encodeName op), ("expr", e.encode)] ++ encodeParam param ++ g.members
  | binary op l r m => [("op", encodeName op), ("left", l.encode), ("right", r.encode)] ++ m.members
  | call f args => [("function", .string f), ("args", .array (encodeArgs args))]

/-- An encoded expression has its kind and then its fields. -/
theorem encode_eq (e : Expr) : e.encode = .object (("type", encodeName e.kind) :: e.fields) := by
  cases e <;> rfl

mutual

/-- Whether JSON has a text for every number of the tree. -/
def allFinite : Expr → Bool
  | number x => x.isFinite
  | text _ => true
  | selector _ => true
  | subquery body _ => body.allFinite
  | unary _ e => e.allFinite
  | aggregation _ e param _ => e.allFinite && allFiniteParam param
  | binary _ l r _ => l.allFinite && r.allFinite
  | call _ args => allFiniteArgs args

/-- Whether the numbers of a parameter are finite. -/
def allFiniteParam : Option Expr → Bool
  | none => true
  | some e => e.allFinite

/-- Whether the numbers of arguments are finite. -/
def allFiniteArgs : List Expr → Bool
  | [] => true
  | e :: es => e.allFinite && allFiniteArgs es

end

end Expr

/-- The value, when all numbers in it are finite; otherwise what is wrong with the first that is not. -/
def finiteOnly {α : Type} (finite : Bool) (a : α) : Decoded α :=
  if finite then .ok a else .error (.wrongType .null .number)

/-! ## Nodes -/

namespace Decode

section Finite

variable {σ : Type} {put : σ → String → Json → Decoded σ} {f g h : σ} {b c : Bool}

/-- A step that cannot fail keeps the one condition, that numbers are finite. -/
theorem finiteOnly_bind {α β : Type} {a : α} {x : β} {next : α → Decoded β} (hnext : next a = .ok x) :
    (finiteOnly b a).bind next = finiteOnly b x := by
  cases b with
  | false => rfl
  | true => exact hnext

/-- A member that holds an expression, and the members behind it. -/
theorem gather_child {key : String} {j : Json} {ms : List (String × Json)}
    (hput : put f key j = finiteOnly b g) (hrest : gather put g ms = finiteOnly c h) :
    gather put f ((key, j) :: ms) = finiteOnly (b && c) h := by
  cases b with
  | false => exact gather_cons_error hput
  | true =>
    rw [gather_cons hput, Bool.true_and]
    exact hrest

/-- Groups of members whose numbers have to be finite are gathered one behind the other. -/
theorem gather_children {xs ys : List (String × Json)} (hxs : gather put f xs = finiteOnly b g)
    (hys : gather put g ys = finiteOnly c h) : gather put f (xs ++ ys) = finiteOnly (b && c) h := by
  cases b with
  | false => exact gather_append_error hxs
  | true =>
    rw [gather_append hxs, Bool.true_and]
    exact hys

end Finite

section Nodes

variable {child : Json → Decoded Expr}

/-- An encoded number is decoded as itself if it is finite. -/
theorem literal_encodeNumber (x : Double) :
    literal .number number (.object [("value", encodeNumber x)]) = finiteOnly x.isFinite x := by
  unfold encodeNumber finiteOnly
  cases x.isFinite <;> rfl

/-- The fields of a window are gathered behind the body of a subquery. -/
theorem gather_window (body : Option Expr) (w : Window) :
    gather (SubqueryFields.put child) { body := body } w.members =
      .ok ⟨body, w.offset.map some, w.instant.map some, w.range.map some, w.resolution.map some⟩ := by
  let fields : Option String → Option String → Option String → Option String → SubqueryFields :=
    fun o i r p => ⟨body, o.map some, i.map some, r.map some, p.map some⟩
  have hoffset : gather (SubqueryFields.put child) (fields none none none none)
      (textMember "offset" w.offset) = .ok (fields w.offset none none none) :=
    gather_optional (fun o => fields o none none none) (fun a => rfl) w.offset
  have hinstant : gather (SubqueryFields.put child) (fields w.offset none none none)
      (textMember "at" w.instant) = .ok (fields w.offset w.instant none none) :=
    gather_optional (fun i => fields w.offset i none none) (fun a => rfl) w.instant
  have hrange : gather (SubqueryFields.put child) (fields w.offset w.instant none none)
      (textMember "range" w.range) = .ok (fields w.offset w.instant w.range none) :=
    gather_optional (fun r => fields w.offset w.instant r none) (fun a => rfl) w.range
  have hresolution : gather (SubqueryFields.put child) (fields w.offset w.instant w.range none)
      (textMember "resolution" w.resolution) = .ok (fields w.offset w.instant w.range w.resolution) :=
    gather_optional (fun p => fields w.offset w.instant w.range p) (fun a => rfl) w.resolution
  have hgather : gather (SubqueryFields.put child) (fields none none none none) w.members =
      .ok (fields w.offset w.instant w.range w.resolution) := by
    unfold Window.members
    rw [List.append_assoc, List.append_assoc, gather_append hoffset, gather_append hinstant,
      gather_append hrange, hresolution]
  exact hgather

/-- An encoded subquery is decoded as itself if its body is. -/
theorem subquery_fields {body : Expr} {w : Window}
    (hbody : child body.encode = finiteOnly body.allFinite body) :
    subquery child (.object (("expr", body.encode) :: w.members)) =
      finiteOnly body.allFinite (.subquery body w) := by
  have hput : SubqueryFields.put child {} "expr" body.encode =
      finiteOnly body.allFinite { body := some body } := by
    show (fill none "expr" (child body.encode)).bind _ = _
    rw [hbody]
    cases body.allFinite <;> rfl
  have hgather := gather_child (c := true) hput (gather_window (some body) w)
  show (gather (SubqueryFields.put child) {} _).bind _ = _
  rw [hgather, Bool.and_true]
  apply finiteOnly_bind
  show Except.ok (Expr.subquery body ⟨(w.offset.map some).join, (w.instant.map some).join,
    (w.range.map some).join, (w.resolution.map some).join⟩) = _
  rw [join_map_some, join_map_some, join_map_some, join_map_some]

/-- An encoded sign is decoded as itself if its operand is. -/
theorem unary_fields {op : Sign} {e : Expr} (he : child e.encode = finiteOnly e.allFinite e) :
    unary child (.object [("op", encodeName op), ("expr", e.encode)]) =
      finiteOnly e.allFinite (.unary op e) := by
  have hop : UnaryFields.put child {} "op" (encodeName op) = .ok { op := some op } := by
    show (fill none "op" (operator (encodeName op))).bind _ = _
    rw [operator_encodeName]
    rfl
  show (gather (UnaryFields.put child) {} _).bind _ = _
  rw [gather_cons hop]
  show (((fill none "expr" (child e.encode)).bind _).bind _).bind _ = _
  rw [he]
  cases e.allFinite <;> rfl

/-- A child that is there is decoded as one that need not be. -/
theorem option_child {e : Expr} (he : child e.encode = finiteOnly e.allFinite e) :
    option child e.encode = finiteOnly e.allFinite (some e) := by
  rw [Expr.encode_eq] at he ⊢
  show (child (.object _)).bind _ = _
  rw [he]
  cases e.allFinite <;> rfl

/-- The labels of a grouping are gathered behind the other fields of an aggregation. -/
theorem gather_grouping (op : Option Aggregator) (e : Option Expr) (param : Option (Option Expr))
    (g : Grouping) :
    gather (AggregationFields.put child) ⟨op, e, param, none, none⟩ g.members =
      .ok ⟨op, e, param, given g.keep, given g.drop⟩ := by
  let fields : List String → List String → AggregationFields :=
    fun ks ds => ⟨op, e, param, given ks, given ds⟩
  have hkeep : gather (AggregationFields.put child) (fields [] []) (labelsMember "by" g.keep) =
      .ok (fields g.keep []) := by
    apply gather_labels (fun ks => fields ks [])
    intro l ls
    show (fill none "by" (labels (.array ((l :: ls).map .string)))).bind _ = _
    rw [labels_map]
    rfl
  have hdrop : gather (AggregationFields.put child) (fields g.keep []) (labelsMember "without" g.drop) =
      .ok (fields g.keep g.drop) := by
    apply gather_labels (fun ds => fields g.keep ds)
    intro l ls
    show (fill none "without" (labels (.array ((l :: ls).map .string)))).bind _ = _
    rw [labels_map]
    rfl
  have hgather : gather (AggregationFields.put child) (fields [] []) g.members =
      .ok (fields g.keep g.drop) := by
    unfold Grouping.members
    rw [gather_append hkeep, hdrop]
  exact hgather

/-- An encoded aggregation is decoded as itself if its operands are. -/
theorem aggregation_fields {op : Aggregator} {e : Expr} {param : Option Expr} {g : Grouping}
    (he : child e.encode = finiteOnly e.allFinite e)
    (hparam : ∀ p ∈ param, child p.encode = finiteOnly p.allFinite p) :
    aggregation child (.object ([("op", encodeName op), ("expr", e.encode)] ++
        Expr.encodeParam param ++ g.members)) =
      finiteOnly (e.allFinite && Expr.allFiniteParam param) (.aggregation op e param g) := by
  have hop : AggregationFields.put child {} "op" (encodeName op) = .ok { op := some op } := by
    show (fill none "op" (operator (encodeName op))).bind _ = _
    rw [operator_encodeName]
    rfl
  have hoperand : AggregationFields.put child { op := some op } "expr" e.encode =
      finiteOnly e.allFinite { op := some op, operand := some e } := by
    show (fill none "expr" (child e.encode)).bind _ = _
    rw [he]
    cases e.allFinite <;> rfl
  have hgiven : gather (AggregationFields.put child) { op := some op, operand := some e }
      (Expr.encodeParam param) = finiteOnly (Expr.allFiniteParam param)
        { op := some op, operand := some e, param := param.map some } := by
    cases param with
    | none => rfl
    | some p =>
      show ((fill none "param" (option child p.encode)).bind _).bind _ = _
      rw [option_child (hparam p rfl), Expr.allFiniteParam]
      cases p.allFinite <;> rfl
  have hgather := gather_child hoperand (gather_children (c := true) hgiven (gather_grouping _ _ _ g))
  show (gather (AggregationFields.put child) {} _).bind _ = _
  rw [List.append_assoc, List.cons_append, gather_cons hop, List.cons_append, List.nil_append, hgather,
    Bool.and_true]
  apply finiteOnly_bind
  show Except.ok (Expr.aggregation op e (param.map some).join ⟨(given g.keep).getD [],
    (given g.drop).getD []⟩) = _
  rw [join_map_some, getD_given, getD_given]

/-- The fields of a matching are gathered behind the other fields of a binary operation. -/
theorem gather_matching (op : Option BinaryOp) (l r : Option Expr) (m : Matching) :
    gather (BinaryFields.put child) ⟨op, l, r, none, none, none, none⟩ m.members =
      .ok ⟨op, l, r, m.scope.map some, given m.labels, m.side.map some, given m.carried⟩ := by
  let fields : Option MatchScope → List String → Option GroupSide → List String → BinaryFields :=
    fun s ls d cs => ⟨op, l, r, s.map some, given ls, d.map some, given cs⟩
  have hscope : gather (BinaryFields.put child) (fields none [] none [])
      (optionalMember "matchType" encodeName m.scope) = .ok (fields m.scope [] none []) := by
    apply gather_optional (fun s => fields s [] none [])
    intro a
    show (fill none "matchType" (option operator (encodeName a))).bind _ = _
    rw [option_operator]
    rfl
  have hlabels : gather (BinaryFields.put child) (fields m.scope [] none [])
      (labelsMember "matchLabels" m.labels) = .ok (fields m.scope m.labels none []) := by
    apply gather_labels (fun ls => fields m.scope ls none [])
    intro l ls
    show (fill none "matchLabels" (labels (.array ((l :: ls).map .string)))).bind _ = _
    rw [labels_map]
    rfl
  have hside : gather (BinaryFields.put child) (fields m.scope m.labels none [])
      (optionalMember "groupModifier" encodeName m.side) = .ok (fields m.scope m.labels m.side []) := by
    apply gather_optional (fun d => fields m.scope m.labels d [])
    intro a
    show (fill none "groupModifier" (option operator (encodeName a))).bind _ = _
    rw [option_operator]
    rfl
  have hcarried : gather (BinaryFields.put child) (fields m.scope m.labels m.side [])
      (labelsMember "groupLabels" m.carried) = .ok (fields m.scope m.labels m.side m.carried) := by
    apply gather_labels (fun cs => fields m.scope m.labels m.side cs)
    intro l ls
    show (fill none "groupLabels" (labels (.array ((l :: ls).map .string)))).bind _ = _
    rw [labels_map]
    rfl
  have hgather : gather (BinaryFields.put child) (fields none [] none []) m.members =
      .ok (fields m.scope m.labels m.side m.carried) := by
    unfold Matching.members
    rw [List.append_assoc, List.append_assoc, gather_append hscope, gather_append hlabels,
      gather_append hside, hcarried]
  exact hgather

/-- An encoded binary operation is decoded as itself if its operands are. -/
theorem binary_fields {op : BinaryOp} {l r : Expr} {m : Matching}
    (hl : child l.encode = finiteOnly l.allFinite l) (hr : child r.encode = finiteOnly r.allFinite r) :
    binary child (.object ([("op", encodeName op), ("left", l.encode), ("right", r.encode)] ++ m.members)) =
      finiteOnly (l.allFinite && r.allFinite) (.binary op l r m) := by
  have hop : BinaryFields.put child {} "op" (encodeName op) = .ok { op := some op } := by
    show (fill none "op" (operator (encodeName op))).bind _ = _
    rw [operator_encodeName]
    rfl
  have hleft : BinaryFields.put child { op := some op } "left" l.encode =
      finiteOnly l.allFinite { op := some op, left := some l } := by
    show (fill none "left" (child l.encode)).bind _ = _
    rw [hl]
    cases l.allFinite <;> rfl
  have hright : BinaryFields.put child { op := some op, left := some l } "right" r.encode =
      finiteOnly r.allFinite { op := some op, left := some l, right := some r } := by
    show (fill none "right" (child r.encode)).bind _ = _
    rw [hr]
    cases r.allFinite <;> rfl
  have hgather := gather_child hleft (gather_child (c := true) hright (gather_matching _ _ _ m))
  show (gather (BinaryFields.put child) {} _).bind _ = _
  rw [List.cons_append, gather_cons hop, List.cons_append, List.cons_append, List.nil_append, hgather,
    Bool.and_true]
  apply finiteOnly_bind
  show Except.ok (Expr.binary op l r ⟨(m.scope.map some).join, (given m.labels).getD [],
    (m.side.map some).join, (given m.carried).getD []⟩) = _
  rw [join_map_some, join_map_some, getD_given, getD_given]

/-- Encoded arguments are decoded as themselves if each is. -/
theorem items_encodeArgs {args : List Expr}
    (hargs : ∀ e ∈ args, child e.encode = finiteOnly e.allFinite e) :
    items child (Expr.encodeArgs args) = finiteOnly (Expr.allFiniteArgs args) args := by
  induction args with
  | nil => rfl
  | cons e es ih =>
    have hlater := ih (fun k hk => hargs k (List.mem_cons_of_mem e hk))
    rw [Expr.encodeArgs, items, hargs e List.mem_cons_self, hlater, Expr.allFiniteArgs]
    cases e.allFinite with
    | false => rfl
    | true => cases Expr.allFiniteArgs es <;> rfl

/-- An encoded call is decoded as itself if its arguments are. -/
theorem call_fields {f : String} {args : List Expr}
    (hargs : ∀ e ∈ args, child e.encode = finiteOnly e.allFinite e) :
    call child (.object [("function", .string f), ("args", .array (Expr.encodeArgs args))]) =
      finiteOnly (Expr.allFiniteArgs args) (.call f args) := by
  have hfunction : CallFields.put child {} "function" (.string f) = .ok { function := some f } := rfl
  show (gather (CallFields.put child) {} _).bind _ = _
  rw [gather_cons hfunction]
  show (((fill none "args" (items child (Expr.encodeArgs args))).bind _).bind _).bind _ = _
  rw [items_encodeArgs hargs]
  cases Expr.allFiniteArgs args <;> rfl

/-- A node is decoded from its fields as itself when its children are. -/
theorem node_fields {e : Expr} (hchild : ∀ c ∈ e.children, child c.encode = finiteOnly c.allFinite c) :
    node child e.kind (.object e.fields) = finiteOnly e.allFinite e := by
  cases e with
  | number x =>
    show (literal .number number _).bind _ = _
    rw [Expr.fields, literal_encodeNumber, Expr.allFinite]
    cases x.isFinite <;> rfl
  | text s => rfl
  | selector s =>
    show (selector (.object s.members)).bind _ = _
    rw [selector_members]
    rfl
  | subquery body w => exact subquery_fields (hchild body List.mem_cons_self)
  | unary op e => exact unary_fields (hchild e List.mem_cons_self)
  | aggregation op e param g =>
    apply aggregation_fields (hchild e List.mem_cons_self)
    intro p hp
    apply hchild p
    exact List.mem_cons_of_mem _ (Option.mem_toList.mpr hp)
  | binary op l r m =>
    exact binary_fields (hchild l List.mem_cons_self)
      (hchild r (List.mem_cons_of_mem _ List.mem_cons_self))
  | call f args => exact call_fields hchild

end Nodes

/-! ## Kinds -/

/-- Behind the tag all members belong to the node. -/
theorem split_some {ms : List (String × Json)} (h : ∀ m ∈ ms, m.1 ≠ "type") (kind : Kind) :
    split (some kind) ms = .ok (kind, ms) := by
  induction ms with
  | nil => rfl
  | cons m ms ih =>
    obtain ⟨key, j⟩ := m
    have hkey : key ≠ "type" := h (key, j) List.mem_cons_self
    rw [split, if_neg hkey, ih fun k hk => h k (List.mem_cons_of_mem _ hk)]
    rfl

end Decode

namespace Expr

/-- What a field of a node can be: a text, a list of labels, a list of matchers, a number, a child or the
arguments of a call, and never the kind. -/
structure FieldCases (e : Expr) (P : String × Json → Prop) : Prop where
  text : ∀ key s, key ≠ "type" → P (key, .string s)
  labels : ∀ key (ls : List String), key ≠ "type" → P (key, .array (ls.map .string))
  matchers : ∀ key (ms : List Matcher), key ≠ "type" → P (key, .array (ms.map Matcher.encode))
  number : ∀ key x, key ≠ "type" → e = number x → P (key, encodeNumber x)
  child : ∀ key c, key ≠ "type" → c ∈ e.children → P (key, c.encode)
  args : ∀ key f as, key ≠ "type" → e = call f as → P (key, .array (encodeArgs as))

namespace FieldCases

variable {e : Expr} {P : String × Json → Prop} (h : e.FieldCases P)
include h

/-- What holds of texts holds of one that is written only if it is there. -/
theorem optional {key : String} (hkey : key ≠ "type") (v : Option String) :
    ∀ m ∈ textMember key v, P m := by
  cases v with
  | none => exact nofun
  | some s => exact List.forall_mem_singleton.mpr (h.text key s hkey)

/-- So it does of a name that is written only if it is there. -/
theorem optionalName {α : Type} [Vocabulary α] {key : String} (hkey : key ≠ "type") (v : Option α) :
    ∀ m ∈ optionalMember key encodeName v, P m := by
  cases v with
  | none => exact nofun
  | some a => exact List.forall_mem_singleton.mpr (h.text key (Vocabulary.name a) hkey)

/-- What holds of lists of labels holds of one that is written only if it has any. -/
theorem labelList {key : String} (hkey : key ≠ "type") (ls : List String) :
    ∀ m ∈ labelsMember key ls, P m := by
  cases ls with
  | nil => exact nofun
  | cons l ls => exact List.forall_mem_singleton.mpr (h.labels key (l :: ls) hkey)

/-- What holds in all cases holds of every field of an encoded node. -/
theorem fields : ∀ m ∈ e.fields, P m := by
  cases e with
  | number x => exact List.forall_mem_singleton.mpr (h.number "value" x (by simp) rfl)
  | text s => exact List.forall_mem_singleton.mpr (h.text "value" s (by simp))
  | selector s =>
    simp only [Expr.fields, Selector.members, List.forall_mem_append, List.forall_mem_cons]
    refine ⟨⟨⟨⟨?_, ?_, nofun⟩, ?_⟩, ?_⟩, ?_⟩
    · exact h.text "metric" s.metric (by simp)
    · exact h.matchers "labels" s.matchers (by simp)
    · exact h.optional (by simp) s.offset
    · exact h.optional (by simp) s.instant
    · exact h.optional (by simp) s.range
  | subquery body w =>
    simp only [Expr.fields, Window.members, List.forall_mem_append, List.forall_mem_cons]
    refine ⟨?_, ⟨⟨?_, ?_⟩, ?_⟩, ?_⟩
    · exact h.child "expr" body (by simp) List.mem_cons_self
    · exact h.optional (by simp) w.offset
    · exact h.optional (by simp) w.instant
    · exact h.optional (by simp) w.range
    · exact h.optional (by simp) w.resolution
  | unary op e =>
    simp only [Expr.fields, List.forall_mem_cons]
    refine ⟨?_, ?_, nofun⟩
    · exact h.text "op" (Vocabulary.name op) (by simp)
    · exact h.child "expr" e (by simp) List.mem_cons_self
  | aggregation op e param g =>
    have hparam : ∀ m ∈ encodeParam param, P m := by
      cases param with
      | none => exact nofun
      | some p =>
        have hp := h.child "param" p (by simp) (List.mem_cons_of_mem _ List.mem_cons_self)
        exact List.forall_mem_singleton.mpr hp
    simp only [Expr.fields, Grouping.members, List.forall_mem_append, List.forall_mem_cons]
    refine ⟨⟨⟨?_, ?_, nofun⟩, hparam⟩, ?_, ?_⟩
    · exact h.text "op" (Vocabulary.name op) (by simp)
    · exact h.child "expr" e (by simp) List.mem_cons_self
    · exact h.labelList (by simp) g.keep
    · exact h.labelList (by simp) g.drop
  | binary op l r m =>
    simp only [Expr.fields, Matching.members, List.forall_mem_append, List.forall_mem_cons]
    refine ⟨⟨?_, ?_, ?_, nofun⟩, ⟨⟨?_, ?_⟩, ?_⟩, ?_⟩
    · exact h.text "op" (Vocabulary.name op) (by simp)
    · exact h.child "left" l (by simp) List.mem_cons_self
    · exact h.child "right" r (by simp) (List.mem_cons_of_mem _ List.mem_cons_self)
    · exact h.optionalName (by simp) m.scope
    · exact h.labelList (by simp) m.labels
    · exact h.optionalName (by simp) m.side
    · exact h.labelList (by simp) m.carried
  | call f args =>
    simp only [Expr.fields, List.forall_mem_cons]
    refine ⟨?_, ?_, nofun⟩
    · exact h.text "function" f (by simp)
    · exact h.args "args" f args (by simp) rfl

end FieldCases

/-- No field of a node takes the place of its kind. -/
theorem ne_type_of_mem_fields (e : Expr) : ∀ m ∈ e.fields, m.1 ≠ "type" := by
  apply FieldCases.fields
  constructor
  · exact fun key s hkey => hkey
  · exact fun key ls hkey => hkey
  · exact fun key ms hkey => hkey
  · exact fun key x hkey _ => hkey
  · exact fun key c hkey _ => hkey
  · exact fun key f as hkey _ => hkey

/-- An encoded expression is decoded as a node of its kind with its fields. -/
theorem tagged_encode (e : Expr) : Decode.tagged e.encode = .ok (e.kind, .object e.fields) := by
  have hsplit : Decode.split none (("type", encodeName e.kind) :: e.fields) = .ok (e.kind, e.fields) := by
    rw [Decode.split, if_pos rfl]
    show (Decode.named Kind (Vocabulary.name e.kind)).bind _ = _
    rw [Decode.named_name]
    exact Decode.split_some e.ne_type_of_mem_fields e.kind
  rw [encode_eq]
  show (Decode.split none _).bind _ = _
  rw [hsplit]
  rfl

/-! ## Heights -/

/-- A member is no higher than all of them. -/
theorem height_le_heightMembers {key : String} {j : Json} {ms : List (String × Json)}
    (h : (key, j) ∈ ms) : j.height ≤ Json.heightMembers ms := by
  induction ms with
  | nil => exact absurd h List.not_mem_nil
  | cons m ms ih =>
    obtain ⟨k, i⟩ := m
    rw [Json.heightMembers]
    rcases List.mem_cons.mp h with heq | hmem
    · cases heq
      exact Nat.le_max_left _ _
    · exact Nat.le_trans (ih hmem) (Nat.le_max_right _ _)

/-- An argument is no higher than all of them. -/
theorem height_le_heightItems {e : Expr} {args : List Expr} (h : e ∈ args) :
    e.encode.height ≤ Json.heightItems (encodeArgs args) := by
  induction args with
  | nil => exact absurd h List.not_mem_nil
  | cons a args ih =>
    rw [encodeArgs, Json.heightItems]
    rcases List.mem_cons.mp h with rfl | hmem
    · exact Nat.le_max_left _ _
    · exact Nat.le_trans (ih hmem) (Nat.le_max_right _ _)

/-- The value of a child is no higher than the fields of its parent. -/
theorem height_le_of_mem_children {c e : Expr} (h : c ∈ e.children) :
    c.encode.height ≤ Json.heightMembers e.fields := by
  cases e with
  | number x => exact absurd h List.not_mem_nil
  | text s => exact absurd h List.not_mem_nil
  | selector s => exact absurd h List.not_mem_nil
  | subquery body w =>
    rw [children, List.mem_singleton] at h
    subst h
    exact height_le_heightMembers List.mem_cons_self
  | unary op e =>
    rw [children, List.mem_singleton] at h
    subst h
    exact height_le_heightMembers (List.mem_cons_of_mem _ List.mem_cons_self)
  | aggregation op e param g =>
    rw [children, List.mem_cons, Option.mem_toList] at h
    rcases h with rfl | hp
    · exact height_le_heightMembers (List.mem_cons_of_mem _ List.mem_cons_self)
    · obtain rfl := Option.mem_def.mp hp
      apply height_le_heightMembers
      simp only [fields, encodeParam, List.mem_append, List.mem_singleton]
      exact .inl (.inr rfl)
  | binary op l r m =>
    rw [children, List.mem_cons, List.mem_singleton] at h
    rcases h with rfl | rfl
    · exact height_le_heightMembers (List.mem_cons_of_mem _ List.mem_cons_self)
    · exact height_le_heightMembers (List.mem_cons_of_mem _ (List.mem_cons_of_mem _ List.mem_cons_self))
  | call f args =>
    have hitems : c.encode.height ≤ Json.heightItems (encodeArgs args) := height_le_heightItems h
    have hargs : (Json.array (encodeArgs args)).height ≤ Json.heightMembers (call f args).fields :=
      height_le_heightMembers (List.mem_cons_of_mem _ List.mem_cons_self)
    rw [Json.height] at hargs
    omega

/-- The value of a tree is decoded as the tree, or fails at a number that is not finite. -/
theorem decode_encode (e : Expr) {height : Nat} (h : e.encode.height ≤ height) :
    decode height e.encode = finiteOnly e.allFinite e := by
  induction e using childInduction generalizing height with
  | node e ih =>
    have hheight : e.encode.height = Json.heightMembers (("type", encodeName e.kind) :: e.fields) + 1 := by
      rw [encode_eq, Json.height]
    rw [Json.heightMembers] at hheight
    obtain ⟨n, rfl⟩ : ∃ n, height = n + 1 := ⟨height - 1, by omega⟩
    have hchild : ∀ c ∈ e.children, decode n c.encode = finiteOnly c.allFinite c := by
      intro c hc
      have hc' := height_le_of_mem_children hc
      exact ih c hc (by omega)
    rw [decode, tagged_encode]
    exact Decode.node_fields hchild

end Expr

end MetricQuery
