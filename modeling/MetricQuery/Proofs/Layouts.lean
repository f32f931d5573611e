import MetricQuery.Proofs.NodeDecoding
import Mathlib.Logic.Relation

/-!
# Layouts

The same tree can be laid out in many ways. A `Change` is one step from a layout to another, somewhere in a value:
the members of an expression or a matcher are put in another order, a member that is not declared comes or goes,
or a field that may be absent is given as `null` or left out. Any number of steps make a value `Relaid`.

A `Change` is stated with the names of the fields alone. The tables of the decoder have these names (`Declares`),
so what was shown of tables gives that no step changes what is decoded, and then that a run of steps does not.
-/

set_option autoImplicit false

namespace MetricQuery

/-! ## Declared fields -/

/-- The names of the fields of a record, in the order of the fields. -/
def Record.fields : Record → List String
  | .matcher => ["name", "value", "operator"]
  | .node .number => ["value"]
  | .node .text => ["value"]
  | .node .selector => ["metric", "labels", "offset", "at", "range"]
  | .node .subquery => ["expr", "offset", "at", "range", "resolution"]
  | .node .unary => ["op", "expr"]
  | .node .aggregation => ["op", "expr", "param", "by", "without"]
  | .node .binary => ["op", "left", "right", "matchType", "matchLabels", "groupModifier", "groupLabels"]
  | .node .call => ["function", "args"]

/-- The keys that mean something in a record. In a node the kind is one of them. -/
def Record.keys : Record → List String
  | .matcher => Record.matcher.fields
  | .node kind => "type" :: (Record.node kind).fields

/-- The fields of a record are among its keys. -/
theorem Record.fields_subset_keys (r : Record) : r.fields ⊆ r.keys := by
  cases r with
  | matcher => exact List.Subset.refl _
  | node kind => exact List.subset_cons_self _ _

/-- The tag is no field. -/
theorem Record.type_not_mem_fields (kind : Kind) : "type" ∉ (Record.node kind).fields := by
  cases kind <;> decide

namespace Layout

open Decode (Schema Slot Shape valuesOf valuesOf_cons_of_ne)

/-- The fields that may be `null`, which is then the same as to leave them out. -/
def nullable : List String :=
  ["offset", "at", "range", "resolution", "param", "matchType", "groupModifier"]

/-- Where a value stands: in the place of an expression, of a matcher or of a list. -/
inductive Place where
  | expression
  | matcher
  | list (item : Place)

namespace Place

/-- The place that a field is for what it holds, if it holds nodes or matchers. -/
def ofField? : String → Option Place
  | "expr" => some expression
  | "left" => some expression
  | "right" => some expression
  | "param" => some expression
  | "args" => some (list expression)
  | "labels" => some (list matcher)
  | _ => none

/-- What is decoded at a place. -/
def Tree : Place → Type
  | expression => Expr
  | matcher => Matcher
  | list item => List item.Tree

/-- How a value at a place is decoded. -/
def read : (p : Place) → Json → Decoded p.Tree
  | expression => Expr.ofValue
  | matcher => Decode.matcher
  | list item => Decode.list item.read

end Place

/-! ## Changes of a layout -/

/-- The object with these members, at this place, is a record of this kind. -/
inductive Describes : Place → List (String × Json) → Record → Prop where
  | matcher (ms : List (String × Json)) : Describes .matcher ms .matcher
  | node {ms : List (String × Json)} {t : Json} {kind : Kind} (htype : ("type", t) ∈ ms)
      (hkind : Decode.tag t = .ok kind) : Describes .expression ms (.node kind)

/-- One step from a layout to another of the value at a place. -/
inductive Change : Place → Json → Json → Prop where
  /-- The members come in another order. -/
  | permute {p : Place} {r : Record} {ms ns : List (String × Json)} (hrecord : Describes p ms r)
      (hperm : ms.Perm ns) : Change p (.object ms) (.object ns)
  /-- A member that is not declared comes in. -/
  | add {p : Place} {r : Record} {ms : List (String × Json)} {key : String} (hrecord : Describes p ms r)
      (hkey : key ∉ r.keys) (j : Json) : Change p (.object ms) (.object ((key, j) :: ms))
  /-- A member that is not declared goes out. -/
  | drop {p : Place} {r : Record} {ms : List (String × Json)} {key : String} (hrecord : Describes p ms r)
      (hkey : key ∉ r.keys) (j : Json) : Change p (.object ((key, j) :: ms)) (.object ms)
  /-- A field that was left out is given as `null`. -/
  | addNull {p : Place} {r : Record} {ms : List (String × Json)} {key : String} (hrecord : Describes p ms r)
      (hkey : key ∈ r.fields) (hnull : key ∈ nullable) (hfresh : key ∉ ms.map Prod.fst) :
      Change p (.object ms) (.object ((key, .null) :: ms))
  /-- A field that was given as `null` is left out. -/
  | dropNull {p : Place} {r : Record} {ms : List (String × Json)} {key : String} (hrecord : Describes p ms r)
      (hkey : key ∈ r.fields) (hnull : key ∈ nullable) : Change p (.object ((key, .null) :: ms)) (.object ms)
  /-- What a field holds is laid out in another way. -/
  | member {p q : Place} {r : Record} {ms : List (String × Json)} {key : String} {j k : Json}
      (hrecord : Describes p ((key, j) :: ms) r) (hkey : key ∈ r.fields) (hplace : Place.ofField? key = some q)
      (hchange : Change q j k) : Change p (.object ((key, j) :: ms)) (.object ((key, k) :: ms))
  /-- The same for a field that is given by its position. -/
  | position {q : Place} {t j k : Json} {kind : Kind} {key : String} {before after : List Json}
      (hkind : Decode.tag t = .ok kind) (hkey : (Record.node kind).fields[before.length]? = some key)
      (hplace : Place.ofField? key = some q) (hchange : Change q j k) :
      Change .expression (.array (t :: (before ++ j :: after))) (.array (t :: (before ++ k :: after)))
  /-- An item of a list is laid out in another way. -/
  | item {q : Place} {j k : Json} {before after : List Json} (hchange : Change q j k) :
      Change (.list q) (.array (before ++ j :: after)) (.array (before ++ k :: after))

/-- A layout that any number of steps lead to. -/
def Relaid : Json → Json → Prop :=
  Relation.ReflTransGen (Change .expression)

/-- Neither side of a change is null. -/
theorem Change.ne_null {p : Place} {j k : Json} (h : Change p j k) : j ≠ .null ∧ k ≠ .null := by
  cases h <;> exact ⟨nofun, nofun⟩

/-! ## Places of shapes -/

/-- The place that a shape is. -/
def placeOf {α : Type} : Shape α → Option Place
  | .matchers => some (.list .matcher)
  | .child => some .expression
  | .children => some (.list .expression)
  | .optional shape => placeOf shape
  | _ => none

/-- What need not be there is decoded as it is, unless it is null. -/
theorem option_of_ne_null {α : Type} {value : Json → Decoded α} {j : Json} (h : j ≠ .null) :
    Decode.option value j = (value j).bind fun a => .ok (some a) := by
  cases j with
  | null => exact absurd rfl h
  | _ => rfl

/-- A shape decodes what its place decodes. -/
theorem decode_of_read {α : Type} {shape : Shape α} {q : Place} {j k : Json} (hplace : placeOf shape = some q)
    (hj : j ≠ .null) (hk : k ≠ .null) (h : ∀ t, q.read j = .ok t → q.read k = .ok t) :
    ∀ a, shape.decode Expr.ofValue j = .ok a → shape.decode Expr.ofValue k = .ok a := by
  induction shape with
  | matchers =>
    cases hplace
    exact h
  | child =>
    cases hplace
    exact h
  | children =>
    cases hplace
    exact h
  | optional shape ih =>
    intro a ha
    rw [Shape.decode, option_of_ne_null hj] at ha
    rw [Shape.decode, option_of_ne_null hk]
    obtain ⟨b, hb, hret⟩ := bind_eq_ok_iff.mp ha
    exact bind_eq_ok_iff.mpr ⟨b, ih hplace b hb, hret⟩
  | _ => cases hplace

/-! ## The tables have the declared fields -/

/-- The table has the fields of the record: by name, whether `null` may stand there, and the place that each is. -/
def Declares {α : Type} (S : Schema α) (r : Record) : Prop :=
  (S.slots.map fun s => (s.name, s.shape.blank.isSome, placeOf s.shape)) =
    r.fields.map fun name => (name, decide (name ∈ nullable), Place.ofField? name)

/-- The schema of matchers has the fields that their record declares. -/
theorem declares_matcher : Declares Decode.matcherSchema .matcher :=
  rfl

/-- So has the schema of every kind of node. -/
theorem declares_node (kind : Kind) : Declares (Decode.nodeSchema kind) (.node kind) := by
  cases kind <;> rfl

namespace Declares

variable {α : Type} {S : Schema α} {r : Record} {key : String}

/-- The slots of a schema have the names that are declared, in their order. -/
theorem names (h : Declares S r) : S.slots.map Slot.name = r.fields := by
  have hfirst := congrArg (List.map Prod.fst) h
  rw [List.map_map, List.map_map] at hfirst
  exact hfirst.trans (List.map_id _)

/-- A slot may be null, and holds what it does, as its name declares. -/
theorem of_mem (h : Declares S r) {s : Slot S.Fields} (hs : s ∈ S.slots) :
    s.shape.blank.isSome = decide (s.name ∈ nullable) ∧ placeOf s.shape = Place.ofField? s.name := by
  have hmem : (s.name, s.shape.blank.isSome, placeOf s.shape) ∈
      r.fields.map fun name => (name, decide (name ∈ nullable), Place.ofField? name) := by
    rw [← h]
    exact List.mem_map_of_mem hs
  obtain ⟨name, -, heq⟩ := List.mem_map.mp hmem
  simp only [Prod.mk.injEq] at heq
  obtain ⟨rfl, hblank, hplace⟩ := heq
  exact ⟨hblank.symm, hplace.symm⟩

/-- A slot that may be null has something to stand for it. -/
theorem blank (h : Declares S r) {s : Slot S.Fields} (hs : s ∈ S.slots) (hnull : s.name ∈ nullable) :
    ∃ v, s.shape.blank = some v := by
  rw [← Option.isSome_iff_exists, (h.of_mem hs).1]
  exact decide_eq_true hnull

/-- A slot holds what its name declares. -/
theorem place (h : Declares S r) {s : Slot S.Fields} (hs : s ∈ S.slots) {q : Place}
    (hplace : Place.ofField? s.name = some q) : placeOf s.shape = some q :=
  (h.of_mem hs).2.trans hplace

/-- What is no key of a record is no slot of its schema. -/
theorem not_mem_names (h : Declares S r) (hkey : key ∉ r.keys) : key ∉ S.slots.map Slot.name := by
  rw [h.names]
  exact fun hmem => hkey (r.fields_subset_keys hmem)

/-- What is a field of a record is a slot of its schema. -/
theorem exists_slot (h : Declares S r) (hkey : key ∈ r.fields) : ∃ s ∈ S.slots, s.name = key := by
  rw [← h.names] at hkey
  exact List.mem_map.mp hkey

end Declares

/-! ## No step changes what is decoded -/

section Objects

variable {p : Place} {r : Record} {ms ns : List (String × Json)} {key : String} {j : Json}

/-- Members that describe a record do so with one more in front. -/
theorem Describes.cons (h : Describes p ms r) : Describes p ((key, j) :: ms) r := by
  cases h with
  | matcher => exact .matcher _
  | node hmem hkind => exact .node (List.mem_cons_of_mem _ hmem) hkind

/-- In a node `type` is no field, and it is declared. -/
theorem Describes.ne_type (h : Describes .expression ms r) (hkey : key ∉ r.keys ∨ key ∈ r.fields) : "type" ≠ key := by
  cases h with
  | @node _ t kind hmem hkind =>
    rintro rfl
    rcases hkey with hnot | hfield
    · exact hnot List.mem_cons_self
    · exact Record.type_not_mem_fields kind hfield

/-- A step leaves the kind of a node alone. -/
theorem Change.valuesOf_type (h : Change .expression (.object ms) (.object ns)) :
    (valuesOf "type" ms).Perm (valuesOf "type" ns) := by
  cases h with
  | permute hrecord hperm => exact Decode.valuesOf_perm hperm
  | add hrecord hkey j => rw [valuesOf_cons_of_ne (hrecord.ne_type (.inl hkey))]
  | drop hrecord hkey j => rw [valuesOf_cons_of_ne (hrecord.ne_type (.inl hkey))]
  | addNull hrecord hkey hnull hfresh => rw [valuesOf_cons_of_ne (hrecord.ne_type (.inr hkey))]
  | dropNull hrecord hkey hnull => rw [valuesOf_cons_of_ne (hrecord.ne_type (.inr hkey))]
  | member hrecord hkey hplace hchange =>
    have hne := hrecord.ne_type (.inr hkey)
    rw [valuesOf_cons_of_ne hne, valuesOf_cons_of_ne hne]

/-- Since the kind stays, what is read from an object depends on the table of the record alone. -/
theorem Change.read_object (hchange : Change p (.object ms) (.object ns)) (hrecord : Describes p ms r)
    (hread : ∀ {α : Type} {S : Schema α} {a : α}, Declares S r → S.readMembers Expr.ofValue ms = .ok a →
      S.readMembers Expr.ofValue ns = .ok a) :
    ∀ t, p.read (.object ms) = .ok t → p.read (.object ns) = .ok t := by
  cases hrecord with
  | matcher =>
    intro m hm
    exact (Decode.matcher_object ns).trans (hread declares_matcher ((Decode.matcher_object ms).symm.trans hm))
  | @node _ t kind hmem hkind =>
    intro e he
    obtain ⟨t', kind', ht', hkind', hnode⟩ := Expr.ofValue_object_eq_ok_iff.mp he
    have hperm := hchange.valuesOf_type
    -- The member that describes the object is the one that the decoder finds.
    have hvalue : t ∈ valuesOf "type" ms := List.mem_map.mpr ⟨("type", t), by simpa using hmem, rfl⟩
    rw [ht', List.mem_singleton] at hvalue
    subst hvalue
    rw [hkind] at hkind'
    cases hkind'
    rw [ht'] at hperm
    have hsame : valuesOf "type" ns = [t] := List.perm_singleton.mp hperm.symm
    exact Expr.ofValue_object_eq_ok_iff.mpr ⟨t, kind, hsame, hkind, hread (declares_node kind) hnode⟩

end Objects

/-- A list is decoded in the same way with an item that is. -/
theorem items_replace {α : Type} {item : Json → Decoded α} {j k : Json} {before after : List Json} {as : List α}
    (hitem : ∀ a, item j = .ok a → item k = .ok a) (h : Decode.items item (before ++ j :: after) = .ok as) :
    Decode.items item (before ++ k :: after) = .ok as := by
  induction before generalizing as with
  | nil =>
    obtain ⟨a, ha, hrest⟩ := bind_eq_ok_iff.mp h
    exact bind_eq_ok_iff.mpr ⟨a, hitem a ha, hrest⟩
  | cons i before ih =>
    obtain ⟨a, ha, hrest⟩ := bind_eq_ok_iff.mp h
    obtain ⟨bs, hbs, hret⟩ := bind_eq_ok_iff.mp hrest
    exact bind_eq_ok_iff.mpr ⟨a, ha, bind_eq_ok_iff.mpr ⟨bs, ih hbs, hret⟩⟩

/-- One step leaves what is decoded as it is. -/
theorem Change.read_eq_ok {p : Place} {j k : Json} (h : Change p j k) :
    ∀ t, p.read j = .ok t → p.read k = .ok t := by
  induction h with
  | permute hrecord hperm =>
    refine (permute hrecord hperm).read_object hrecord fun _ hms => ?_
    exact Schema.readMembers_perm hperm hms
  | add hrecord hkey j =>
    refine (add hrecord hkey j).read_object hrecord fun hS hms => ?_
    rwa [Schema.readMembers_cons_of_not_mem (hS.not_mem_names hkey)]
  | drop hrecord hkey j =>
    refine (drop hrecord hkey j).read_object hrecord.cons fun hS hms => ?_
    rwa [Schema.readMembers_cons_of_not_mem (hS.not_mem_names hkey)] at hms
  | addNull hrecord hkey hnull hfresh =>
    refine (addNull hrecord hkey hnull hfresh).read_object hrecord fun hS hms => ?_
    obtain ⟨s, hs, rfl⟩ := hS.exists_slot hkey
    obtain ⟨v, hv⟩ := hS.blank hs hnull
    exact Schema.readMembers_cons_null hs hv hfresh hms
  | dropNull hrecord hkey hnull =>
    refine (dropNull hrecord hkey hnull).read_object hrecord.cons fun hS hms => ?_
    obtain ⟨s, hs, rfl⟩ := hS.exists_slot hkey
    obtain ⟨v, hv⟩ := hS.blank hs hnull
    exact Schema.readMembers_of_cons_null hs hv hms
  | member hrecord hkey hplace hchange ih =>
    refine (member hrecord hkey hplace hchange).read_object hrecord fun hS hms => ?_
    refine Schema.readMembers_cons_replace (fun s hs hname => ?_) hms
    subst hname
    exact decode_of_read (hS.place hs hplace) hchange.ne_null.1 hchange.ne_null.2 ih
  | @position q t j k kind key before after hkind hkey hplace hchange ih =>
    intro e he
    obtain ⟨t', rest, kind', heq, hkind', hnode⟩ := Expr.ofValue_array_eq_ok_iff.mp he
    cases heq
    rw [hkind] at hkind'
    cases hkind'
    rw [← (declares_node kind).names, List.getElem?_map, Option.map_eq_some_iff] at hkey
    obtain ⟨s, hs, rfl⟩ := hkey
    have hdecode := decode_of_read ((declares_node kind).place (List.mem_of_getElem? hs) hplace)
      hchange.ne_null.1 hchange.ne_null.2 ih
    exact Expr.ofValue_array_eq_ok_iff.mpr ⟨t, _, kind, rfl, hkind, Schema.readItems_replace hs hdecode hnode⟩
  | item hchange ih => exact fun ts hts => items_replace ih hts

/-- A run of steps leaves what is decoded as it is. -/
theorem Relaid.ofValue_eq_ok {v w : Json} (h : Relaid v w) {e : Expr} (hv : Expr.ofValue v = .ok e) :
    Expr.ofValue w = .ok e := by
  induction h with
  | refl => exact hv
  | tail _ hchange ih => exact hchange.read_eq_ok e ih

end Layout

end MetricQuery
