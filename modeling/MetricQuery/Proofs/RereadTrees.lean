import MetricQuery.Proofs.LayoutTexts

/-!
# Trees that are read and written again

A tree that comes from a text is valid and holds finite numbers, so its own text is a text of a tree. Whether it is
accepted depends on its depth only. The text that was read has room for the brackets of all that it gives, `givenDepth`,
but not for an empty list of matchers or arguments, which may be left out and is always written. So what is
written can be one bracket deeper than what was read, and at the limit it is refused: `load_toJson_of_load`.

The bound follows the reader. What it reads is bounded, `takes_readValue`; the value of every field was among what was
read, `Schema.exists_fields`; and a node needs one bracket more than its fields, `givenDepth_le_of_finish`.
-/

set_option autoImplicit false

namespace MetricQuery

/-! ## Brackets that are needed -/

namespace Expr

mutual

/-- How many brackets are open at once in the shortest text of a tree, which leaves out every empty list. -/
def givenDepth : Expr → Nat
  | number _ => 1
  | text _ => 1
  | selector s => if s.matchers = [] then 1 else 3
  | subquery body _ => body.givenDepth + 1
  | unary _ e => e.givenDepth + 1
  | aggregation _ e param g =>
    max (max e.givenDepth (givenParamDepth param)) (max (labelsDepth g.keep) (labelsDepth g.drop)) + 1
  | binary _ l r m =>
    max (max l.givenDepth r.givenDepth) (max (labelsDepth m.labels) (labelsDepth m.carried)) + 1
  | call _ args => givenArgsDepth args + 1

/-- How deep a parameter may have been written. -/
def givenParamDepth : Option Expr → Nat
  | none => 0
  | some e => e.givenDepth

/-- The brackets of the list and of its items. -/
def givenArgsDepth : List Expr → Nat
  | [] => 0
  | e :: es => max (e.givenDepth + 1) (givenArgsDepth es)

end

/-- Arguments are no deeper than a bound when each is, counted with the list around them. -/
theorem givenArgsDepth_le_iff {args : List Expr} {n : Nat} :
    givenArgsDepth args ≤ n ↔ ∀ e ∈ args, e.givenDepth + 1 ≤ n := by
  induction args with
  | nil => simp [givenArgsDepth]
  | cons e es ih => rw [givenArgsDepth, Nat.max_le, ih, List.forall_mem_cons]

/-- Written arguments are no deeper than a bound when each is. -/
theorem argsDepth_le_iff {args : List Expr} {n : Nat} : argsDepth args ≤ n ↔ ∀ e ∈ args, e.storedDepth ≤ n := by
  induction args with
  | nil => simp [argsDepth]
  | cons e es ih => rw [argsDepth, Nat.max_le, ih, List.forall_mem_cons]

/-- The lists that are written without need are one bracket deep, and there is nothing in them. -/
theorem storedDepth_le (e : Expr) : e.storedDepth ≤ e.givenDepth + 1 := by
  induction e using childInduction with
  | node e ih =>
    cases e with
    | number x => exact Nat.le_succ _
    | text s => exact Nat.le_succ _
    | selector s =>
      rw [storedDepth, givenDepth]
      split <;> omega
    | subquery body w =>
      have hbody := ih body List.mem_cons_self
      rw [storedDepth, givenDepth]
      omega
    | unary op e =>
      have he := ih e List.mem_cons_self
      rw [storedDepth, givenDepth]
      omega
    | aggregation op e param g =>
      have he := ih e List.mem_cons_self
      have hparam : paramDepth param ≤ givenParamDepth param + 1 := by
        cases param with
        | none => exact Nat.zero_le _
        | some p => exact ih p (List.mem_cons_of_mem _ List.mem_cons_self)
      rw [storedDepth, givenDepth]
      omega
    | binary op l r m =>
      have hl := ih l List.mem_cons_self
      have hr := ih r (List.mem_cons_of_mem _ List.mem_cons_self)
      rw [storedDepth, givenDepth]
      omega
    | call f args =>
      have hargs : argsDepth args ≤ givenArgsDepth args := by
        refine argsDepth_le_iff.mpr fun e he => ?_
        have hgiven := givenArgsDepth_le_iff.mp (Nat.le_refl _) e he
        exact (ih e he).trans hgiven
      rw [storedDepth, givenDepth]
      omega

end Expr

namespace Decode

open MetricQuery.Expr (labelsDepth givenParamDepth givenArgsDepth givenArgsDepth_le_iff allFiniteArgs allFiniteParam
  allFiniteArgs_iff)

/-! ## Where fields come from -/

/-- The values of a node's fields. -/
def Content.values : Content → List Json
  | .object members => members.map Prod.snd
  | .array items => items

namespace Schema

variable {α : Type} {S : Schema α} {child : Json → Decoded Expr}

/-- What is in a slot was there before, or comes from an item. -/
theorem origin_of_takeIn {record : Record} {present : Nat} {slots : List (Slot S.Fields)} {f g : S.Fields}
    {js : List Json} (hslots : slots ⊆ S.slots) (h : takeIn child record present slots f js = .ok g)
    {t : Slot S.Fields} (ht : t ∈ S.slots) {v : t.Value} (hv : t.get g = some v) :
    t.get f = some v ∨ ∃ j ∈ js, t.shape.decode child j = .ok v := by
  induction slots generalizing f js with
  | nil =>
    obtain ⟨_, -, hret⟩ := bind_eq_ok_iff.mp h
    cases hret
    exact .inl hv
  | cons s slots ih =>
    obtain ⟨hs, hslots⟩ := List.cons_subset.mp hslots
    cases js with
    | nil =>
      rw [takeIn] at h
      split at h
      · cases h
      · exact ih hslots h
    | cons j js =>
      obtain ⟨a, ha, hlater⟩ := bind_eq_ok_iff.mp h
      rcases ih hslots hlater with hget | ⟨i, hi, hdecode⟩
      · rcases eq_or_apart hs ht with rfl | hapart
        · rw [s.get_set, Option.some.injEq] at hget
          exact .inr ⟨j, List.mem_cons_self, hget ▸ ha⟩
        · rw [hapart.get_right] at hget
          exact .inl hget
      · exact .inr ⟨i, List.mem_cons_of_mem _ hi, hdecode⟩

/-- What a slot holds at the end has been decoded from a value that was there. -/
theorem exists_fields {content : Content} {a : α} (h : S.read child content = .ok a) :
    ∃ f, S.finish f = .ok a ∧
      ∀ s ∈ S.slots, ∀ v, s.get f = some v → ∃ j ∈ content.values, s.shape.decode child j = .ok v := by
  cases content with
  | object ms =>
    obtain ⟨f, hslots, hfinish⟩ := readMembers_eq_ok_iff.mp h
    refine ⟨f, hfinish, fun s hs v hv => ?_⟩
    rcases Slot.collect_none_eq_ok_iff.mp (hslots s hs) with ⟨-, hnone⟩ | ⟨j, b, hjs, hdecode, hsome⟩
    · rw [hv] at hnone
      cases hnone
    · rw [hv, Option.some.injEq] at hsome
      have hj : j ∈ valuesOf s.name ms := hjs ▸ List.mem_singleton.mpr rfl
      obtain ⟨m, hm, rfl⟩ := List.mem_map.mp hj
      exact ⟨m.2, List.mem_map_of_mem (List.mem_of_mem_filter hm), hsome ▸ hdecode⟩
  | array js =>
    obtain ⟨f, htake, hfinish⟩ := bind_eq_ok_iff.mp h
    refine ⟨f, hfinish, fun s hs v hv => ?_⟩
    rcases origin_of_takeIn (List.Subset.refl _) htake hs hv with hempty | horigin
    · rw [S.get_empty s hs] at hempty
      cases hempty
    · exact horigin

end Schema

/-! ## What fits into a field -/

/-- What a field holds needs at most `n` brackets, and the numbers in it are finite. -/
def Shape.Fits (n : Nat) {α : Type} : Shape α → α → Prop
  | text => fun _ => True
  | number => fun x => x.isFinite = true
  | operator _ => fun _ => True
  | labels => fun ls => labelsDepth ls ≤ n
  | matchers => fun ms => ms ≠ [] → 2 ≤ n
  | child => fun e => e.givenDepth ≤ n ∧ e.allFinite = true
  | children => fun es => givenArgsDepth es ≤ n ∧ allFiniteArgs es = true
  | optional shape => fun v => ∀ a, v = some a → shape.Fits n a

/-- Expressions up to this depth fit into the brackets from which they are decoded. -/
def FitsUpTo (n : Nat) (child : Json → Decoded Expr) : Prop :=
  ∀ d ≤ n, ∀ j e, Json.Bounded d j → child j = .ok e → e.givenDepth ≤ d ∧ e.allFinite = true

section Fits

variable {child : Json → Decoded Expr} {n : Nat} {j : Json}

/-- A number that is decoded from one in range is finite. -/
theorem isFinite_of_number {x : Double} (hj : j.InRange) (h : number j = .ok x) : x.isFinite = true := by
  cases j with
  | float y =>
    cases h
    exact hj
  | integer i =>
    cases h
    exact decide_eq_true ((Double.magnitude_ofRatio_one_le _ hj).trans_lt (by decide))
  | _ => cases h

/-- A list is decoded from an array. -/
theorem list_eq_ok {α : Type} {item : Json → Decoded α} {as : List α} (h : list item j = .ok as) :
    ∃ js, j = .array js ∧ items item js = .ok as := by
  cases j with
  | array js => exact ⟨js, rfl, h⟩
  | _ => cases h

/-- Every item of a list has been decoded from an item of the array. -/
theorem exists_of_mem_items {α : Type} {item : Json → Decoded α} {js : List Json} {as : List α}
    (h : items item js = .ok as) : ∀ a ∈ as, ∃ j ∈ js, item j = .ok a := by
  induction js generalizing as with
  | nil =>
    cases h
    exact nofun
  | cons j js ih =>
    obtain ⟨a, ha, hlater⟩ := bind_eq_ok_iff.mp h
    obtain ⟨as', has, hret⟩ := bind_eq_ok_iff.mp hlater
    cases hret
    refine List.forall_mem_cons.mpr ⟨⟨j, List.mem_cons_self, ha⟩, fun b hb => ?_⟩
    obtain ⟨i, hi, hb⟩ := ih has b hb
    exact ⟨i, List.mem_cons_of_mem j hi, hb⟩

/-- A matcher is decoded from a value with brackets. -/
theorem nesting_pos_of_matcher {m : Matcher} (h : matcher j = .ok m) : 0 < j.nesting := by
  cases j with
  | object ms => exact Nat.succ_pos _
  | array js => exact Nat.succ_pos _
  | _ => cases h

/-- What is decoded from a value within a depth fits it. -/
theorem Shape.fits_of_decode (hchild : FitsUpTo n child) (hj : Json.Bounded n j) {α : Type} {shape : Shape α} {a : α}
    (h : shape.decode child j = .ok a) : shape.Fits n a := by
  induction shape with
  | text => trivial
  | number => exact isFinite_of_number hj.2.root h
  | operator _ => trivial
  | labels =>
    obtain ⟨js, rfl, -⟩ := list_eq_ok h
    obtain ⟨d, rfl, -⟩ := hj.parts (Nat.succ_pos _)
    show labelsDepth a ≤ d + 1
    unfold labelsDepth
    split <;> omega
  | matchers =>
    intro hne
    obtain ⟨js, rfl, hitems⟩ := list_eq_ok h
    obtain ⟨d, rfl, hbounded⟩ := hj.parts (Nat.succ_pos _)
    obtain ⟨m, ms, rfl⟩ := List.exists_cons_of_ne_nil hne
    obtain ⟨i, hi, hm⟩ := exists_of_mem_items hitems m List.mem_cons_self
    have hpos := nesting_pos_of_matcher hm
    have hle := (hbounded i hi).1
    omega
  | child => exact hchild n (Nat.le_refl _) j a hj h
  | children =>
    obtain ⟨js, rfl, hitems⟩ := list_eq_ok h
    obtain ⟨d, rfl, hbounded⟩ := hj.parts (Nat.succ_pos _)
    -- The items are one bracket further in than the list, so the decoder is used at the depth below.
    have hfits : ∀ e ∈ a, e.givenDepth ≤ d ∧ e.allFinite = true := by
      intro e he
      obtain ⟨i, hi, hdecode⟩ := exists_of_mem_items hitems e he
      exact hchild d (Nat.le_succ d) i e (hbounded i hi) hdecode
    exact ⟨givenArgsDepth_le_iff.mpr fun e he => Nat.succ_le_succ (hfits e he).1,
      allFiniteArgs_iff.mpr fun e he => (hfits e he).2⟩
  | optional shape ih =>
    rintro b rfl
    cases j with
    | null => cases h
    | _ =>
      obtain ⟨c, hc, hret⟩ := bind_eq_ok_iff.mp h
      cases hret
      exact ih hc

end Fits

/-! ## Nodes -/

section Finish

variable {n : Nat} {e : Expr}

/-- What the slots of a table hold fits. -/
def Schema.Fits {α : Type} (S : Schema α) (n : Nat) (f : S.Fields) : Prop :=
  ∀ s ∈ S.slots, ∀ v, s.get f = some v → s.shape.Fits n v

/-- What is in a slot fits when all fields do. -/
theorem Schema.Fits.slot {α : Type} {S : Schema α} {f : S.Fields} (hf : S.Fits n f) (i : Nat) {s : Slot S.Fields}
    (hs : S.slots[i]? = some s) {v : s.Value} (hv : s.get f = some v) : s.shape.Fits n v :=
  hf s (List.mem_of_getElem? hs) v hv

/-- Labels that need not be given are no deeper than those that are. -/
theorem labelsDepth_getD_le {ls : Option (List String)} (h : ∀ v, ls = some v → labelsDepth v ≤ n) :
    labelsDepth (ls.getD []) ≤ n := by
  cases ls with
  | none => exact Nat.zero_le n
  | some ls => exact h ls rfl

/-- A literal fits when its value does. -/
theorem literal_fits {α : Type} {kind : Kind} {shape : Shape α} {hshape : shape.blank = none} {a : α} {f : Option α}
    (hf : (literalSchema kind shape hshape).Fits n f) (h : (literalSchema kind shape hshape).finish f = .ok a) :
    shape.Fits n a := by
  cases f with
  | none => cases h
  | some b =>
    cases h
    exact hf.slot 0 rfl rfl

/-- A selector is one deeper than its fields. -/
theorem selector_fits {s : Selector} {f : SelectorFields} (hf : selectorSchema.Fits n f)
    (h : selectorSchema.finish f = .ok s) : (Expr.selector s).givenDepth ≤ n + 1 := by
  obtain ⟨_ | metric, matchers, offset, instant, range⟩ := f <;> cases h
  have hmatchers : matchers.getD [] ≠ [] → 2 ≤ n := by
    cases matchers with
    | none => exact fun hne => absurd rfl hne
    | some ms => exact hf.slot 1 rfl rfl
  rw [Expr.givenDepth]
  split
  · exact Nat.le_add_left 1 n
  · exact Nat.succ_le_succ (hmatchers ‹_›)

/-- So is a subquery, whose numbers are finite. -/
theorem subquery_fits {f : SubqueryFields} (hf : subquerySchema.Fits n f) (h : subquerySchema.finish f = .ok e) :
    e.givenDepth ≤ n + 1 ∧ e.allFinite = true := by
  obtain ⟨_ | body, offset, instant, range, resolution⟩ := f <;> cases h
  obtain ⟨hdepth, hfinite⟩ : body.givenDepth ≤ n ∧ body.allFinite = true := hf.slot 0 rfl rfl
  exact ⟨Nat.succ_le_succ hdepth, hfinite⟩

/-- So is a sign, whose numbers are finite. -/
theorem unary_fits {f : UnaryFields} (hf : unarySchema.Fits n f) (h : unarySchema.finish f = .ok e) :
    e.givenDepth ≤ n + 1 ∧ e.allFinite = true := by
  obtain ⟨_ | op, _ | operand⟩ := f <;> cases h
  obtain ⟨hdepth, hfinite⟩ : operand.givenDepth ≤ n ∧ operand.allFinite = true := hf.slot 1 rfl rfl
  exact ⟨Nat.succ_le_succ hdepth, hfinite⟩

/-- So is an aggregation, whose numbers are finite. -/
theorem aggregation_fits {f : AggregationFields} (hf : aggregationSchema.Fits n f)
    (h : aggregationSchema.finish f = .ok e) : e.givenDepth ≤ n + 1 ∧ e.allFinite = true := by
  obtain ⟨_ | op, _ | operand, param, keep, drop⟩ := f <;> cases h
  obtain ⟨hdepth, hfinite⟩ : operand.givenDepth ≤ n ∧ operand.allFinite = true := hf.slot 1 rfl rfl
  have hparam : givenParamDepth param.join ≤ n ∧ allFiniteParam param.join = true := by
    rcases param with _ | _ | p
    · exact ⟨Nat.zero_le n, rfl⟩
    · exact ⟨Nat.zero_le n, rfl⟩
    · exact hf.slot 2 rfl rfl p rfl
  have hkeep : labelsDepth (keep.getD []) ≤ n := labelsDepth_getD_le fun v hv => hf.slot 3 rfl hv
  have hdrop : labelsDepth (drop.getD []) ≤ n := labelsDepth_getD_le fun v hv => hf.slot 4 rfl hv
  refine ⟨Nat.succ_le_succ (Nat.max_le.mpr ⟨Nat.max_le.mpr ⟨hdepth, hparam.1⟩, Nat.max_le.mpr ⟨hkeep, hdrop⟩⟩), ?_⟩
  exact Bool.and_eq_true_iff.mpr ⟨hfinite, hparam.2⟩

/-- So is a binary operation, whose numbers are finite. -/
theorem binary_fits {f : BinaryFields} (hf : binarySchema.Fits n f) (h : binarySchema.finish f = .ok e) :
    e.givenDepth ≤ n + 1 ∧ e.allFinite = true := by
  obtain ⟨_ | op, _ | left, _ | right, scope, labels, side, carried⟩ := f <;> cases h
  obtain ⟨hleft, hleft'⟩ : left.givenDepth ≤ n ∧ left.allFinite = true := hf.slot 1 rfl rfl
  obtain ⟨hright, hright'⟩ : right.givenDepth ≤ n ∧ right.allFinite = true := hf.slot 2 rfl rfl
  have hlabels : labelsDepth (labels.getD []) ≤ n := labelsDepth_getD_le fun v hv => hf.slot 4 rfl hv
  have hcarried : labelsDepth (carried.getD []) ≤ n := labelsDepth_getD_le fun v hv => hf.slot 6 rfl hv
  refine ⟨Nat.succ_le_succ (Nat.max_le.mpr ⟨Nat.max_le.mpr ⟨hleft, hright⟩, Nat.max_le.mpr ⟨hlabels, hcarried⟩⟩), ?_⟩
  exact Bool.and_eq_true_iff.mpr ⟨hleft', hright'⟩

/-- So is a call, whose numbers are finite. -/
theorem call_fits {f : CallFields} (hf : callSchema.Fits n f) (h : callSchema.finish f = .ok e) :
    e.givenDepth ≤ n + 1 ∧ e.allFinite = true := by
  obtain ⟨_ | function, args⟩ := f <;> cases h
  have hargs : givenArgsDepth (args.getD []) ≤ n ∧ allFiniteArgs (args.getD []) = true := by
    cases args with
    | none => exact ⟨Nat.zero_le n, rfl⟩
    | some args => exact hf.slot 1 rfl rfl
  exact ⟨Nat.succ_le_succ hargs.1, hargs.2⟩

/-- A wrapped result comes from a result. -/
theorem map_eq_ok {α β : Type} {x : Decoded α} {wrap : α → β} {b : β} (h : x.map wrap = .ok b) :
    ∃ a, x = .ok a ∧ b = wrap a := by
  cases x with
  | error f => cases h
  | ok a =>
    cases h
    exact ⟨a, rfl, rfl⟩

/-- A node needs one bracket more than its fields. -/
theorem givenDepth_le_of_finish (kind : Kind) {f : (nodeSchema kind).Fields} (hf : (nodeSchema kind).Fits n f)
    (h : (nodeSchema kind).finish f = .ok e) : e.givenDepth ≤ n + 1 ∧ e.allFinite = true := by
  cases kind with
  | number =>
    obtain ⟨x, hx, rfl⟩ := map_eq_ok h
    exact ⟨Nat.le_add_left 1 n, literal_fits hf hx⟩
  | text =>
    obtain ⟨s, -, rfl⟩ := map_eq_ok h
    exact ⟨Nat.le_add_left 1 n, rfl⟩
  | selector =>
    obtain ⟨s, hs, rfl⟩ := map_eq_ok h
    exact ⟨selector_fits hf hs, rfl⟩
  | subquery => exact subquery_fits hf h
  | unary => exact unary_fits hf h
  | aggregation => exact aggregation_fits hf h
  | binary => exact binary_fits hf h
  | call => exact call_fits hf h

/-- A decoded node is one deeper than its content, and its numbers are finite. -/
theorem givenDepth_le_of_node {child : Json → Decoded Expr} {kind : Kind} {content : Content}
    (hchild : FitsUpTo n child) (hcontent : ∀ j ∈ content.values, Json.Bounded n j)
    (h : node child kind content = .ok e) : e.givenDepth ≤ n + 1 ∧ e.allFinite = true := by
  rw [node_eq_read] at h
  obtain ⟨f, hfinish, horigin⟩ := Schema.exists_fields h
  refine givenDepth_le_of_finish kind (fun s hs v hv => ?_) hfinish
  obtain ⟨j, hj, hdecode⟩ := horigin s hs v hv
  exact Shape.fits_of_decode hchild (hcontent j hj) hdecode

end Finish

/-- The fields of a node are inside its bracket. -/
theorem bounded_values {kind : Kind} {content : Content} {n : Nat} {j : Json} (hj : Json.Bounded n j)
    (h : tagged j = .ok (kind, content)) : ∃ d, n = d + 1 ∧ ∀ i ∈ content.values, Json.Bounded d i := by
  have hparts : ∀ i ∈ content.values, i ∈ j.parts := by
    cases j with
    | object ms =>
      obtain ⟨⟨k, others⟩, hsplit, hret⟩ := bind_eq_ok_iff.mp h
      cases hret
      obtain ⟨-, rfl⟩ := split_none_eq_ok_iff.mp hsplit
      exact List.map_subset Prod.snd (List.filter_subset_self ms)
    | array js =>
      cases js with
      | nil => cases h
      | cons t js =>
        obtain ⟨k, -, hret⟩ := bind_eq_ok_iff.mp h
        cases hret
        exact List.subset_cons_self t js
    | _ => cases h
  have hpos : 0 < j.nesting := by
    cases j with
    | object ms => exact Nat.succ_pos _
    | array js => exact Nat.succ_pos _
    | _ => cases h
  obtain ⟨d, hd, hbounded⟩ := hj.parts hpos
  exact ⟨d, hd, fun i hi => hbounded i (hparts i hi)⟩

end Decode

/-! ## Trees -/

namespace Expr

/-- A tree fits into the brackets of the value that it is decoded from. -/
theorem fitsUpTo_ofValue (n : Nat) : Decode.FitsUpTo n ofValue := by
  -- Along the depth: the fields of a node have one bracket less than the node.
  induction n with
  | zero =>
    intro d hd j e hj h
    obtain ⟨kind, content, htag, -⟩ := ofValue_eq_ok_iff.mp h
    obtain ⟨d', rfl, -⟩ := Decode.bounded_values hj htag
    exact absurd hd (Nat.not_succ_le_zero d')
  | succ n ih =>
    intro d hd j e hj h
    obtain ⟨kind, content, htag, hnode⟩ := ofValue_eq_ok_iff.mp h
    obtain ⟨d', rfl, hvalues⟩ := Decode.bounded_values hj htag
    have hd' : d' ≤ n := Nat.le_of_succ_le_succ hd
    exact Decode.givenDepth_le_of_node (fun d hd => ih d (hd.trans hd')) hvalues hnode

end Expr

namespace Load

variable {text rest : List Char} {kind : Kind}

/-- The members of a tagged node are within the inner depth. -/
theorem bounded_members {steps : Nat} {first : Bool} {given : Option Kind} {others : List (String × Json)}
    (h : members steps first given text = .ok (kind, others, rest)) :
    ∀ m ∈ others, Json.Bounded innerDepth m.2 := by
  induction steps generalizing first given text others with
  | zero => cases h
  | succ steps ih =>
    obtain ⟨next, -, hlater⟩ := bind_eq_ok_iff.mp h
    cases next with
    | close rest' =>
      cases given with
      | none => cases hlater
      | some k =>
        cases hlater
        exact nofun
    | part key t =>
      simp only at hlater
      split at hlater
      · cases given with
        | some k => cases hlater
        | none =>
          obtain ⟨t', -, hlater⟩ := bind_eq_ok_iff.mp hlater
          obtain ⟨⟨k, t''⟩, -, hlater⟩ := bind_eq_ok_iff.mp hlater
          exact ih hlater
      · obtain ⟨t', -, hlater⟩ := bind_eq_ok_iff.mp hlater
        obtain ⟨⟨j, t''⟩, hj, hlater⟩ := bind_eq_ok_iff.mp hlater
        obtain ⟨⟨k, others', rest'⟩, hothers, hret⟩ := bind_eq_ok_iff.mp hlater
        cases hret
        have hvalue := Json.takes_readValue innerDepth t' j t'' (ofJson_eq_ok_iff.mp hj)
        exact List.forall_mem_cons.mpr ⟨hvalue.1, ih hothers⟩

/-- The fields at the top of a text are inside its bracket. -/
theorem bounded_tagged {content : Decode.Content} (h : tagged text = .ok (kind, content, rest)) :
    ∀ j ∈ content.values, Json.Bounded innerDepth j := by
  unfold tagged at h
  split at h
  · obtain ⟨⟨k, others, rest'⟩, hmembers, hret⟩ := bind_eq_ok_iff.mp h
    cases hret
    exact List.forall_mem_map.mpr (bounded_members hmembers)
  · obtain ⟨next, -, hlater⟩ := bind_eq_ok_iff.mp h
    cases next with
    | close rest' => cases hlater
    | part u t =>
      obtain ⟨⟨k, t'⟩, -, hlater⟩ := bind_eq_ok_iff.mp hlater
      obtain ⟨⟨js, rest'⟩, hjs, hret⟩ := bind_eq_ok_iff.mp hlater
      cases hret
      exact (Json.takes_readItems (Json.takes_readValue innerDepth) js _ (ofJson_eq_ok_iff.mp hjs)).1
  · obtain ⟨_, -, hthrow⟩ := bind_eq_ok_iff.mp h
    cases hthrow

end Load

namespace Expr

/-- An expression that is read is within the limit, and its numbers are finite. -/
theorem givenDepth_le_of_read {text : List Char} {e : Expr} (h : read text = .ok e) :
    e.givenDepth ≤ Json.nestingLimit ∧ e.allFinite = true := by
  obtain ⟨⟨kind, content, rest⟩, htag, hlater⟩ := bind_eq_ok_iff.mp h
  obtain ⟨e', hnode, hlater⟩ := bind_eq_ok_iff.mp hlater
  obtain ⟨_, -, hret⟩ := bind_eq_ok_iff.mp hlater
  cases hret
  rw [Load.ofData_eq_ok_iff, node_decode (Nat.le_refl _)] at hnode
  exact Decode.givenDepth_le_of_node (fitsUpTo_ofValue Load.innerDepth) (Load.bounded_tagged htag) hnode

/-- An expression is loaded when it is read and valid. -/
theorem load_eq_ok_iff {text : List Char} {e : Expr} :
    load text = .ok e ↔ read text = .ok e ∧ e.validate = .ok () := by
  constructor
  · intro h
    unfold load at h
    split at h
    · cases h
    · split at h
      · cases h
      · cases h
        exact ⟨‹_›, ‹_›⟩
  · rintro ⟨hread, hvalid⟩
    simp only [load, hread, hvalid]

/-- What was read can be written, and what is written is a text of the tree with restored numbers, unless it is too deep
for the reader. That happens only at the limit, where the text has no room for the one bracket of an empty list that it
left out. -/
theorem load_toJson_of_load {text : List Char} {e : Expr} (h : load text = .ok e) :
    e.givenDepth ≤ Json.nestingLimit ∧ e.storedDepth ≤ e.givenDepth + 1 ∧
    load e.toJson.toList =
      if e.storedDepth ≤ Json.nestingLimit then .ok e.restored else .error (.read (.json .malformed)) := by
  obtain ⟨hread, hvalid⟩ := load_eq_ok_iff.mp h
  obtain ⟨hdepth, hfinite⟩ := givenDepth_le_of_read hread
  exact ⟨hdepth, storedDepth_le e, load_toJson_of_valid hfinite hvalid⟩

/-- The value of a call without arguments under `n` signs, with no list of arguments. -/
def bareCallValue : Nat → Json
  | 0 => .object [("type", .string "funcCallExpr"), ("function", .string "time")]
  | n + 1 => .object [("type", .string "unaryExpr"), ("op", .string "+"), ("expr", bareCallValue n)]

/-- A call without arguments under any number of signs. -/
def signedCall : Nat → Expr
  | 0 => call "time" []
  | n + 1 => unary .plus (signedCall n)

section SignedCall

variable (n : Nat)

/-- A call without arguments under signs nests once for each sign and once for itself. -/
theorem nesting_bareCallValue : (bareCallValue n).nesting = n + 1 := by
  induction n with
  | zero => rfl
  | succ n ih => simp [bareCallValue, Json.nesting, Json.nestingMembers, ih]

/-- It stands for the call under its signs. -/
theorem ofValue_bareCallValue : ofValue (bareCallValue n) = .ok (signedCall n) := by
  induction n with
  | zero => rfl
  | succ n ih =>
    refine ofValue_eq_ok_iff.mpr ⟨.unary, .object [("op", .string "+"), ("expr", bareCallValue n)], rfl, ?_⟩
    show (((Decode.fill none "expr" (ofValue (bareCallValue n))).bind _).bind _).bind _ = _
    rw [ih]
    rfl

/-- It is loaded as long as it nests within the limit. -/
theorem load_bareCallValue (hn : n < Json.nestingLimit) : load (bareCallValue n).write = .ok (signedCall n) := by
  have hall : (bareCallValue n).All Json.ReadsAlone := by
    induction n with
    | zero => exact all_readsAlone_object (by simp [all_readsAlone_string])
    | succ n ih => exact all_readsAlone_object (by simp [all_readsAlone_string, ih (Nat.lt_of_succ_lt hn)])
  have hnames : Load.namesKind (bareCallValue n) = true := by cases n <;> rfl
  have hvalid : (signedCall n).validate = .ok () := by
    clear hn hall hnames
    induction n with
    | zero => rfl
    | succ n ih => exact ih
  have htext := Json.textOf_write hall ((nesting_bareCallValue n).trans_le hn)
  exact load_eq_ok_iff.mpr ⟨(read_eq_ok_iff htext).mpr ⟨hnames, ofValue_bareCallValue n⟩, hvalid⟩

/-- Written again, it nests once more, for the list of its arguments. -/
theorem storedDepth_signedCall : (signedCall n).storedDepth = n + 2 := by
  induction n with
  | zero => rfl
  | succ n ih => rw [signedCall, storedDepth, ih]

end SignedCall

/-- Under as many signs as the reader allows a call can be read, but not what is written for it. -/
theorem load_signedCall_twice :
    load (bareCallValue 126).write = .ok (signedCall 126) ∧
      load (signedCall 126).toJson.toList = .error (.read (.json .malformed)) := by
  have hload := load_bareCallValue 126 (by decide)
  have htwice := (load_toJson_of_load hload).2.2
  rw [if_neg (by rw [storedDepth_signedCall]; decide)] at htwice
  exact ⟨hload, htwice⟩

end Expr

end MetricQuery
