import MetricQuery.Proofs.JsonReading
import MetricQuery.Proofs.Layouts
import MetricQuery.Proofs.StoredTrees

/-!
# Texts in other layouts

Loading a text looks at the kind of the node at its top while the text is still being read. Apart from that, and from
the fact that this kind has to be given by its name, it gives what decoding the value of the text gives,
`Expr.read_eq_ok_iff`. So a text of a value and a text of the same value in another layout give the same answer,
`Expr.load_relaid`.
-/

set_option autoImplicit false

namespace MetricQuery

namespace Json

/-- The text is read as the value, and nothing follows. -/
def TextOf (text : List Char) (j : Json) : Prop :=
  ∃ rest, readValue nestingLimit text = .ok (j, rest) ∧ finish rest = .ok ()

/-- What is written for a value is a text of it. -/
theorem textOf_write {j : Json} (h : j.All ReadsAlone) (hnesting : j.nesting ≤ nestingLimit) : TextOf j.write j := by
  have hread := readValue_pretty h nestingLimit 0 stops_nil
  rw [List.append_nil, within, if_pos hnesting] at hread
  exact ⟨[], hread, rfl⟩

/-- Whether a value is a text. -/
def isString : Json → Bool
  | string _ => true
  | _ => false

end Json

/-! ## The kind at the top -/

namespace Load

open Decode (valuesOf valuesOf_cons_self valuesOf_cons_of_ne)
open ReadFault (ofJson ofData)

/-- The node at the top has its kind by name. -/
def namesKind : Json → Bool
  | .object ms => (valuesOf "type" ms).all Json.isString
  | .array js => js.head?.all Json.isString
  | _ => true

variable {text rest rest' : List Char} {kind : Kind}

/-- Reading goes well inside a load when it does by itself. -/
theorem ofJson_eq_ok_iff {α : Type} {x : Except Json.Fault α} {a : α} : ofJson x = .ok a ↔ x = .ok a := by
  cases x <;> simp [ofJson]

/-- So does decoding. -/
theorem ofData_eq_ok_iff {α : Type} {x : Decoded α} {a : α} : ofData x = .ok a ↔ x = .ok a := by
  cases x <;> simp [ofData]

/-- A name is read where a string is read, and there it is the kind that the string names. -/
theorem name_eq_ok_iff {d : Nat} {j : Json} (hvalue : Json.readValue d text = .ok (j, rest)) :
    name Kind text = .ok (kind, rest') ↔ rest' = rest ∧ j.isString = true ∧ Decode.tag j = .ok kind := by
  constructor
  · intro h
    unfold name at h
    split at h
    · rename_i t hskip
      obtain ⟨⟨s, rest''⟩, hs, hlater⟩ := bind_eq_ok_iff.mp h
      obtain ⟨k, hk, hret⟩ := bind_eq_ok_iff.mp hlater
      cases hret
      rw [Json.readValue_quote hskip, ofJson_eq_ok_iff.mp hs] at hvalue
      cases hvalue
      exact ⟨rfl, rfl, ofData_eq_ok_iff.mp hk⟩
    · obtain ⟨_, -, hthrow⟩ := bind_eq_ok_iff.mp h
      cases hthrow
  · rintro ⟨rfl, hstring, htag⟩
    cases j with
    | string s =>
      obtain ⟨t, hskip, hs⟩ := Json.readValue_string_cases hvalue
      unfold name
      rw [hskip]
      refine bind_eq_ok_iff.mpr ⟨(s, rest'), ofJson_eq_ok_iff.mpr hs, ?_⟩
      exact bind_eq_ok_iff.mpr ⟨kind, ofData_eq_ok_iff.mpr htag, rfl⟩
    | _ => cases hstring

section Members

variable {steps : Nat} {first : Bool} {given : Option Kind} {t t' t'' : List Char}

/-- The tag among the members gives the kind. -/
theorem members_type (hnext : Json.nextMember first text = .ok (.part "type" t))
    (hcolon : Json.readColon t = .ok t') :
    members (steps + 1) first none text =
      name Kind t' >>= fun p => members steps false (some p.1) p.2 := by
  simp only [members, hnext, hcolon, ofJson, bind, Except.bind, if_pos]

/-- Any other member is kept, in its place. -/
theorem members_other {key : String} {j : Json} (hnext : Json.nextMember first text = .ok (.part key t))
    (hcolon : Json.readColon t = .ok t') (hvalue : Json.readValue innerDepth t' = .ok (j, t''))
    (hkey : key ≠ "type") :
    members (steps + 1) first given text =
      members steps false given t'' >>= fun p => .ok (p.1, (key, j) :: p.2.1, p.2.2) := by
  simp only [members, hnext, hcolon, hvalue, ofJson, bind, Except.bind, if_neg hkey]
  rfl

/-- The members at the top are read as those of any object, and then the kind is taken out of them. -/
theorem members_eq_ok_iff {ms others : List (String × Json)}
    (hread : Json.readMembers (Json.readValue innerDepth) steps first text = .ok (ms, rest)) :
    members steps first given text = .ok (kind, others, rest') ↔
      rest' = rest ∧ (valuesOf "type" ms).all Json.isString = true ∧ Decode.split given ms = .ok (kind, others) := by
  induction steps generalizing first text ms others given with
  | zero => cases hread
  | succ steps ih =>
    rcases Json.readMembers_cases hread with
      ⟨hnext, rfl⟩ | ⟨key, t, t', j, t'', later, hnext, hcolon, hj, hlater, rfl⟩
    · rw [members, hnext]
      cases given with
      | none =>
        constructor
        · intro h
          cases h
        · rintro ⟨-, -, hsplit⟩
          cases hsplit
      | some k =>
        constructor
        · intro h
          cases h
          exact ⟨rfl, rfl, rfl⟩
        · rintro ⟨rfl, -, hsplit⟩
          cases hsplit
          rfl
    by_cases hkey : key = "type"
    · subst hkey
      cases given with
      | some k =>
        rw [members, hnext]
        constructor
        · intro h
          cases h
        · rintro ⟨-, -, hsplit⟩
          cases hsplit
      | none =>
        rw [members_type hnext hcolon, valuesOf_cons_self, List.all_cons, Bool.and_eq_true, Decode.split, if_pos rfl,
          bind_eq_ok_iff, bind_eq_ok_iff]
        constructor
        · rintro ⟨⟨k, r⟩, hname, hmembers⟩
          obtain ⟨rfl, hstring, htag⟩ := (name_eq_ok_iff hj).mp hname
          obtain ⟨rfl, hall, hsplit⟩ := (ih hlater).mp hmembers
          exact ⟨rfl, ⟨hstring, hall⟩, k, htag, hsplit⟩
        · rintro ⟨rfl, ⟨hstring, hall⟩, k, htag, hsplit⟩
          exact ⟨(k, t''), (name_eq_ok_iff hj).mpr ⟨rfl, hstring, htag⟩, (ih hlater).mpr ⟨rfl, hall, hsplit⟩⟩
    · rw [members_other hnext hcolon hj hkey, valuesOf_cons_of_ne (Ne.symm hkey), Decode.split_cons_of_ne hkey,
        bind_eq_ok_iff, bind_eq_ok_iff]
      constructor
      · rintro ⟨⟨k, os, r⟩, hmembers, hret⟩
        cases hret
        obtain ⟨rfl, hall, hsplit⟩ := (ih hlater).mp hmembers
        exact ⟨rfl, hall, (k, os), hsplit, rfl⟩
      · rintro ⟨rfl, hall, ⟨k, os⟩, hsplit, hret⟩
        cases hret
        exact ⟨(k, os, rest'), (ih hlater).mpr ⟨rfl, hall, hsplit⟩, rfl⟩

end Members

/-- A tagged node begins with a bracket or a brace. -/
theorem bracket_of_tagged {node : Kind × Decode.Content × List Char} (h : tagged text = .ok node) :
    ∃ t, Json.skipBlanks text = '[' :: t ∨ Json.skipBlanks text = '{' :: t := by
  unfold tagged at h
  split at h
  · rename_i t hskip
    exact ⟨t, .inr hskip⟩
  · rename_i t hskip
    exact ⟨t, .inl hskip⟩
  · obtain ⟨_, -, hthrow⟩ := bind_eq_ok_iff.mp h
    cases hthrow

section Tagged

variable {content : Decode.Content} {t : List Char}

/-- A tagged object is read as its members and then decoded. -/
theorem tagged_object_eq_ok_iff {ms : List (String × Json)} (hskip : Json.skipBlanks text = '{' :: t)
    (hread : Json.readMembers (Json.readValue innerDepth) (t.length + 1) true t = .ok (ms, rest)) :
    tagged text = .ok (kind, content, rest') ↔
      rest' = rest ∧ namesKind (.object ms) = true ∧ Decode.tagged (.object ms) = .ok (kind, content) := by
  rw [tagged, hskip, Decode.tagged]
  refine bind_eq_ok_iff.trans ?_
  rw [bind_eq_ok_iff]
  constructor
  · rintro ⟨⟨k, others, r⟩, hmembers, hret⟩
    cases hret
    obtain ⟨rfl, hall, hsplit⟩ := (members_eq_ok_iff hread).mp hmembers
    exact ⟨rfl, hall, (kind, others), hsplit, rfl⟩
  · rintro ⟨rfl, hall, ⟨k, others⟩, hsplit, hret⟩
    cases hret
    exact ⟨(kind, others, rest'), (members_eq_ok_iff hread).mpr ⟨rfl, hall, hsplit⟩, rfl⟩

/-- An array at the top is read with the steps that the text behind the kind allows, which is enough. -/
theorem tagged_array_eq_ok_iff {js : List Json} (hskip : Json.skipBlanks text = '[' :: t)
    (hread : Json.readItems (Json.readValue innerDepth) (t.length + 1) true t = .ok (js, rest)) :
    tagged text = .ok (kind, content, rest') ↔
      rest' = rest ∧ namesKind (.array js) = true ∧ Decode.tagged (.array js) = .ok (kind, content) := by
  rcases Json.readItems_cases hread with ⟨hnext, rfl⟩ | ⟨t₁, j, t₂, later, hnext, hj, hlater, rfl⟩
  · simp only [tagged, hskip, hnext]
    constructor
    · intro h
      cases h
    · rintro ⟨-, -, htag⟩
      cases htag
  have henough := Json.length_le_of_readItems (Json.takes_readValue innerDepth) hlater
  have hitems := Json.readItems_of_length_lt hlater (Nat.lt_succ_of_le henough)
  have htagged : tagged text = name Kind t₁ >>= fun p =>
      ofJson (Json.readItems (Json.readValue innerDepth) (p.2.length + 1) false p.2) >>= fun q =>
        .ok (p.1, .array q.1, q.2) := by
    simp only [tagged, hskip, hnext, ofJson, bind, Except.bind]
    rfl
  rw [htagged, Decode.tagged, bind_eq_ok_iff, bind_eq_ok_iff]
  constructor
  · rintro ⟨⟨k, r⟩, hname, hmore⟩
    obtain ⟨rfl, hstring, htag⟩ := (name_eq_ok_iff hj).mp hname
    rw [hitems] at hmore
    cases hmore
    exact ⟨rfl, hstring, k, htag, rfl⟩
  · rintro ⟨rfl, hstring, k, htag, hret⟩
    cases hret
    refine ⟨(kind, t₂), (name_eq_ok_iff hj).mpr ⟨rfl, hstring, htag⟩, ?_⟩
    rw [hitems]
    rfl

end Tagged

/-- The node at the top has its kind by name, and otherwise it is a node like any other. -/
theorem tagged_eq_ok_iff {v : Json} {content : Decode.Content}
    (hvalue : Json.readValue Json.nestingLimit text = .ok (v, rest)) :
    tagged text = .ok (kind, content, rest') ↔
      rest' = rest ∧ namesKind v = true ∧ Decode.tagged v = .ok (kind, content) := by
  have hlimit : Json.nestingLimit = innerDepth + 1 := rfl
  rw [hlimit, Json.readValue] at hvalue
  rcases Json.readValueWith_cases hvalue with
    ⟨t, s, hskip, -, rfl⟩ | ⟨t, hskip, harray⟩ | ⟨t, hskip, hobject⟩ | ⟨⟨hbare, -⟩, -⟩
  · constructor
    · intro h
      obtain ⟨t', hbracket⟩ := bracket_of_tagged h
      rw [hskip] at hbracket
      exact absurd hbracket (by simp)
    · rintro ⟨-, -, htag⟩
      cases htag
  · obtain ⟨⟨js, r⟩, hitems, hret⟩ := bind_eq_ok_iff.mp harray
    cases hret
    exact tagged_array_eq_ok_iff hskip hitems
  · obtain ⟨⟨ms, r⟩, hmembers, hret⟩ := bind_eq_ok_iff.mp hobject
    cases hret
    exact tagged_object_eq_ok_iff hskip hmembers
  · constructor
    · intro h
      obtain ⟨t, hskip | hskip⟩ := bracket_of_tagged h
      all_goals
        rw [Json.readValueWith, hskip] at hvalue
        obtain ⟨_, -, hret⟩ := bind_eq_ok_iff.mp hvalue
        cases hret
        cases hbare
    · rintro ⟨-, -, htag⟩
      cases v <;> first | cases htag | cases hbare

end Load

/-! ## Loading -/

namespace Layout

/-- A change of layout keeps whether a kind is named. -/
theorem Change.namesKind_eq {v w : Json} (h : Change .expression v w) : Load.namesKind v = Load.namesKind w := by
  cases v with
  | object ms =>
    cases w with
    | object ns => exact h.valuesOf_type.all_eq
    | _ => cases h
  | array js =>
    cases h
    rfl
  | _ => cases h

/-- So does any other layout. -/
theorem Relaid.namesKind_eq {v w : Json} (h : Relaid v w) : Load.namesKind v = Load.namesKind w := by
  induction h with
  | refl => rfl
  | tail _ hchange ih => exact ih.trans hchange.namesKind_eq

end Layout

namespace Expr

open Layout (Relaid)

/-- A text gives the tree of its value, if the kind at the top is given by its name. -/
theorem read_eq_ok_iff {text : List Char} {v : Json} {e : Expr} (htext : Json.TextOf text v) :
    read text = .ok e ↔ Load.namesKind v = true ∧ ofValue v = .ok e := by
  obtain ⟨rest, hvalue, hfinish⟩ := htext
  rw [ofValue_eq_ok_iff]
  constructor
  · intro h
    obtain ⟨⟨kind, content, rest'⟩, htag, hlater⟩ := bind_eq_ok_iff.mp h
    obtain ⟨e', hnode, hlater⟩ := bind_eq_ok_iff.mp hlater
    obtain ⟨_, -, hret⟩ := bind_eq_ok_iff.mp hlater
    cases hret
    obtain ⟨rfl, hnames, htag⟩ := (Load.tagged_eq_ok_iff hvalue).mp htag
    rw [Load.ofData_eq_ok_iff, node_decode (Nat.le_refl _)] at hnode
    exact ⟨hnames, kind, content, htag, hnode⟩
  · rintro ⟨hnames, kind, content, htag, hnode⟩
    have htagged := (Load.tagged_eq_ok_iff hvalue).mpr ⟨rfl, hnames, htag⟩
    rw [← node_decode (Nat.le_refl _), ← Load.ofData_eq_ok_iff] at hnode
    refine bind_eq_ok_iff.mpr ⟨_, htagged, bind_eq_ok_iff.mpr ⟨e, hnode, ?_⟩⟩
    rw [hfinish]
    rfl

/-- Texts that give the same tree are loaded with the same answer. -/
theorem load_congr {s t : List Char} (h : ∀ e, read s = .ok e ↔ read t = .ok e) :
    (∀ e, load s = .ok e ↔ load t = .ok e) ∧
      ∀ x, load s = .error (.invalid x) ↔ load t = .error (.invalid x) := by
  cases hs : read s with
  | ok e =>
    have hload : load s = load t := by
      rw [load, load, hs, (h e).mp hs]
    rw [hload]
    exact ⟨fun _ => .rfl, fun _ => .rfl⟩
  | error f =>
    cases ht : read t with
    | ok e => exact absurd ((h e).mpr ht) (by simp [hs])
    | error g =>
      rw [load, load, hs, ht]
      exact ⟨fun _ => iff_of_false (by simp) (by simp), fun _ => iff_of_false (by simp) (by simp)⟩

/-- Decoding does not depend on the layout. A value that decodes to a tree decodes to the same tree in every other
layout, and a text of the one gives a tree, or a violation in a tree, exactly when a text of the other gives the
same. -/
theorem load_relaid {v w : Json} {e : Expr} (h : Relaid v w) (hv : ofValue v = .ok e) :
    ofValue w = .ok e ∧
      ∀ s t, Json.TextOf s v → Json.TextOf t w →
        (∀ f, load s = .ok f ↔ load t = .ok f) ∧
        ∀ x, load s = .error (.invalid x) ↔ load t = .error (.invalid x) := by
  have hw := h.ofValue_eq_ok hv
  refine ⟨hw, fun s t hs ht => load_congr fun f => ?_⟩
  rw [read_eq_ok_iff hs, read_eq_ok_iff ht, h.namesKind_eq, hv, hw]

/-- What is no number is read back as itself. -/
theorem readsAlone_of_not_number {j : Json} (h : j.isNumber = false) : j.ReadsAlone := by
  intro hnumber
  rw [h] at hnumber
  cases hnumber

/-- A text is read back as itself throughout. -/
theorem all_readsAlone_string (s : String) : (Json.string s).All Json.ReadsAlone :=
  all_string (fun _ => readsAlone_of_not_number) s

/-- So is an array whose items are. -/
theorem all_readsAlone_array {js : List Json} (h : ∀ j ∈ js, j.All Json.ReadsAlone) :
    (Json.array js).All Json.ReadsAlone :=
  all_array (fun _ => readsAlone_of_not_number) h

/-- So is an object whose values are. -/
theorem all_readsAlone_object {ms : List (String × Json)} (h : ∀ m ∈ ms, m.2.All Json.ReadsAlone) :
    (Json.object ms).All Json.ReadsAlone :=
  all_object (fun _ => readsAlone_of_not_number) h

/-- A sum with the kinds first and no more than what is needed. -/
def plainSum : Json :=
  .object [("type", .string "aggregationExpr"), ("op", .string "sum"),
    ("expr", .object [("type", .string "vectorExpr"), ("metric", .string "up")])]

/-- The same sum with the kinds last, two fields that are `null` and a member that is not declared. -/
def annotatedSum : Json :=
  .object [("note", .array [.null]), ("param", .null),
    ("expr", .object [("offset", .null), ("metric", .string "up"), ("type", .string "vectorExpr")]),
    ("op", .string "sum"), ("type", .string "aggregationExpr")]

/-- A sum with its members in another order, one more member, and null where nothing need be. -/
theorem load_relaid_sum :
    Relaid plainSum annotatedSum ∧
      load annotatedSum.write = .ok (aggregation .sum (selector { metric := "up" }) none {}) := by
  have hsum : ∀ {ms : List (String × Json)}, ("type", .string "aggregationExpr") ∈ ms →
      Layout.Describes .expression ms (.node .aggregation) := fun hmem => .node hmem rfl
  have hup : ∀ {ms : List (String × Json)}, ("type", .string "vectorExpr") ∈ ms →
      Layout.Describes .expression ms (.node .selector) := fun hmem => .node hmem rfl
  have hoffset : "offset" ∈ (Record.node .selector).fields := by decide
  have hparam : "param" ∈ (Record.node .aggregation).fields := by decide
  have hrelaid : Relaid plainSum annotatedSum := by
    refine .head (.permute (hsum (by simp)) (List.reverse_perm _).symm) ?_
    refine .head (.member (hsum (by simp)) (by decide) rfl (.permute (hup (by simp)) (List.reverse_perm _).symm)) ?_
    refine .head (.member (hsum (by simp)) (by decide) rfl
      (.addNull (hup (by simp)) hoffset (by decide) (by simp))) ?_
    refine .head (.addNull (hsum (by simp)) hparam (by decide) (by simp)) ?_
    exact .single (.add (hsum (by simp)) (by decide) (.array [.null]))
  have hv : ofValue plainSum = .ok (aggregation .sum (selector { metric := "up" }) none {}) := rfl
  have hnull : Json.null.All Json.ReadsAlone := .value (readsAlone_of_not_number rfl) nofun
  have hplain : Json.TextOf plainSum.write plainSum := by
    refine Json.textOf_write (all_readsAlone_object ?_) (by decide)
    simp [all_readsAlone_string, all_readsAlone_object]
  have hannotated : Json.TextOf annotatedSum.write annotatedSum := by
    refine Json.textOf_write (all_readsAlone_object ?_) (by decide)
    simp [all_readsAlone_string, all_readsAlone_object, all_readsAlone_array, hnull]
  have hload : load plainSum.write = .ok (aggregation .sum (selector { metric := "up" }) none {}) := by
    rw [load, (read_eq_ok_iff hplain).mpr ⟨rfl, hv⟩]
    rfl
  obtain ⟨-, htexts⟩ := load_relaid hrelaid hv
  have hanswer := htexts plainSum.write annotatedSum.write hplain hannotated
  exact ⟨hrelaid, (hanswer.1 _).mp hload⟩

end Expr

end MetricQuery
