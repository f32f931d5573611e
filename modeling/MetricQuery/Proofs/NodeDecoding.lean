import MetricQuery.Expr.Load
import MetricQuery.Proofs.MemberOrder

/-!
# Decoding without a height

Trees are decoded along the height of their values. The height only bounds the recursion: a node looks at values
that are lower than its own, so with any bound that is high enough the result is the same, `decode_of_height_le`.
What is decoded at a node can then be stated with the decoder itself for its children, for objects in
`ofValue_object_eq_ok_iff` and for arrays in `ofValue_array_eq_ok_iff`.
-/

set_option autoImplicit false

namespace MetricQuery

namespace Json

/-- Every value has some height. -/
theorem height_pos (j : Json) : 0 < j.height := by
  cases j <;> simp [height]

/-- Items are no higher than a bound when each is. -/
theorem heightItems_le_iff {js : List Json} {n : Nat} : heightItems js ≤ n ↔ ∀ j ∈ js, j.height ≤ n := by
  induction js with
  | nil => simp [heightItems]
  | cons j js ih =>
    rw [heightItems, Nat.max_le, ih, List.forall_mem_cons]

/-- Members are no higher than a bound when each value is. -/
theorem heightMembers_le_iff {ms : List (String × Json)} {n : Nat} :
    heightMembers ms ≤ n ↔ ∀ m ∈ ms, m.2.height ≤ n := by
  induction ms with
  | nil => simp [heightMembers]
  | cons m ms ih =>
    rw [heightMembers, Nat.max_le, ih, List.forall_mem_cons]

end Json

namespace Decode

/-! ## Children that are decoded in the same way -/

section Congr

variable {child child' : Json → Decoded Expr} {n : Nat} {j : Json}

/-- Items are decoded in the same way when each is. -/
theorem items_congr {α : Type} {item item' : Json → Decoded α} {js : List Json}
    (h : ∀ j ∈ js, item j = item' j) : items item js = items item' js := by
  induction js with
  | nil => rfl
  | cons j js ih =>
    rw [List.forall_mem_cons] at h
    rw [items, items, h.1, ih h.2]

/-- Members are gathered in the same way when each is put in the same way. -/
theorem gather_congr {σ : Type} {put put' : σ → String → Json → Decoded σ} {f : σ} {ms : List (String × Json)}
    (h : ∀ m ∈ ms, ∀ f, put f m.1 m.2 = put' f m.1 m.2) : gather put f ms = gather put' f ms := by
  induction ms generalizing f with
  | nil => rfl
  | cons m ms ih =>
    rw [List.forall_mem_cons] at h
    rw [gather, gather, h.1]
    exact congrArg _ (funext fun g => ih h.2)

/-- A value is decoded in the same way when children no higher than it are. -/
theorem Shape.decode_congr (hchild : ∀ i, i.height ≤ n → child i = child' i) (hj : j.height ≤ n) {α : Type}
    (shape : Shape α) : shape.decode child j = shape.decode child' j := by
  induction shape with
  | child => exact hchild j hj
  | children =>
    cases j with
    | array js =>
      rw [Json.height] at hj
      have hjs : ∀ i ∈ js, i.height ≤ n := Json.heightItems_le_iff.mp (by omega)
      exact items_congr fun i hi => hchild i (hjs i hi)
    | _ => rfl
  | optional shape ih =>
    cases j with
    | null => rfl
    | _ => exact congrArg (fun x => x.bind fun a => .ok (some a)) ih
  | _ => rfl

/-- So it is put into its slot. -/
theorem putIn_congr (hchild : ∀ i, i.height ≤ n → child i = child' i) (hj : j.height ≤ n) {σ : Type}
    {slots : List (Slot σ)} (f : σ) (key : String) : putIn child slots f key j = putIn child' slots f key j := by
  induction slots with
  | nil => rfl
  | cons s slots ih => rw [putIn, putIn, Slot.put, Slot.put, Shape.decode_congr hchild hj, ih]

/-- So items are taken for their slots. -/
theorem takeIn_congr (hchild : ∀ i, i.height ≤ n → child i = child' i) {σ : Type} {slots : List (Slot σ)}
    {record : Record} {present : Nat} {f : σ} {js : List Json} (hjs : ∀ j ∈ js, j.height ≤ n) :
    takeIn child record present slots f js = takeIn child' record present slots f js := by
  induction slots generalizing f js with
  | nil => rfl
  | cons s slots ih =>
    cases js with
    | nil => rw [takeIn, takeIn, ih hjs]
    | cons j js =>
      rw [List.forall_mem_cons] at hjs
      rw [takeIn, takeIn, Shape.decode_congr hchild hjs.1]
      exact congrArg _ (funext fun a => ih hjs.2)

/-- A node is decoded in the same way when children no higher than its content are. -/
theorem node_congr {content : Content} (hchild : ∀ i, i.height ≤ n → child i = child' i)
    (hcontent : Load.contentHeight content ≤ n) (kind : Kind) :
    node child kind content = node child' kind content := by
  rw [node_eq_read, node_eq_read]
  cases content with
  | object ms =>
    have hms : ∀ m ∈ ms, m.2.height ≤ n := Json.heightMembers_le_iff.mp hcontent
    rw [Schema.read, Schema.read, Schema.readMembers, Schema.readMembers,
      gather_congr fun m hm f => putIn_congr hchild (hms m hm) f m.1]
  | array js =>
    have hjs : ∀ j ∈ js, j.height ≤ n := Json.heightItems_le_iff.mp hcontent
    rw [Schema.read, Schema.read, Schema.readItems, Schema.readItems, takeIn_congr hchild hjs]

end Congr

/-! ## Kinds -/

section Kinds

variable {ms others : List (String × Json)} {kind k : Kind}

/-- A member that is not the tag is kept, in its place. -/
theorem split_cons_of_ne {key : String} (hkey : key ≠ "type") (given : Option Kind) (j : Json) :
    split given ((key, j) :: ms) = split given ms >>= fun p => .ok (p.1, (key, j) :: p.2) := by
  cases given <;> rw [split, if_neg hkey] <;> rfl

/-- Behind the tag there is no other. -/
theorem split_some_eq_ok_iff :
    split (some k) ms = .ok (kind, others) ↔
      valuesOf "type" ms = [] ∧ kind = k ∧ others = ms.filter fun m => m.1 ≠ "type" := by
  induction ms generalizing others with
  | nil => simp [split, valuesOf, eq_comm]
  | cons m ms ih =>
    obtain ⟨key, j⟩ := m
    by_cases hkey : key = "type"
    · subst hkey
      rw [valuesOf_cons_self]
      constructor
      · intro h
        cases h
      · rintro ⟨hnil, -⟩
        cases hnil
    · rw [split_cons_of_ne hkey, bind_eq_ok_iff, valuesOf_cons_of_ne (Ne.symm hkey),
        List.filter_cons_of_pos (by simpa using hkey)]
      constructor
      · rintro ⟨⟨kind', rest⟩, hsplit, hret⟩
        cases hret
        obtain ⟨hnil, hk, rfl⟩ := ih.mp hsplit
        exact ⟨hnil, hk, rfl⟩
      · rintro ⟨hnil, hk, rfl⟩
        exact ⟨_, ih.mpr ⟨hnil, hk, rfl⟩, rfl⟩

/-- Among members there is one tag, and the others are kept. -/
theorem split_none_eq_ok_iff :
    split none ms = .ok (kind, others) ↔
      (∃ t, valuesOf "type" ms = [t] ∧ tag t = .ok kind) ∧ others = ms.filter fun m => m.1 ≠ "type" := by
  induction ms generalizing others with
  | nil => exact ⟨nofun, nofun⟩
  | cons m ms ih =>
    obtain ⟨key, j⟩ := m
    by_cases hkey : key = "type"
    · subst hkey
      rw [split, if_pos rfl, valuesOf_cons_self, List.filter_cons_of_neg (by simp)]
      show (tag j).bind (fun k => split (some k) ms) = _ ↔ _
      refine bind_eq_ok_iff.trans ⟨?_, ?_⟩
      · rintro ⟨k, htag, hsplit⟩
        obtain ⟨hnil, rfl, hothers⟩ := split_some_eq_ok_iff.mp hsplit
        exact ⟨⟨j, by rw [hnil], htag⟩, hothers⟩
      · rintro ⟨⟨t, ht, htag⟩, hothers⟩
        rw [List.cons.injEq] at ht
        obtain ⟨rfl, hnil⟩ := ht
        exact ⟨kind, htag, split_some_eq_ok_iff.mpr ⟨hnil, rfl, hothers⟩⟩
    · rw [split_cons_of_ne hkey, bind_eq_ok_iff, valuesOf_cons_of_ne (Ne.symm hkey),
        List.filter_cons_of_pos (by simpa using hkey)]
      constructor
      · rintro ⟨⟨kind', rest⟩, hsplit, hret⟩
        cases hret
        obtain ⟨htype, rfl⟩ := ih.mp hsplit
        exact ⟨htype, rfl⟩
      · rintro ⟨htype, rfl⟩
        exact ⟨_, ih.mpr ⟨htype, rfl⟩, rfl⟩

/-- The content of a node is less high than the node. -/
theorem contentHeight_lt {content : Content} {j : Json} (h : tagged j = .ok (kind, content)) :
    Load.contentHeight content < j.height := by
  cases j with
  | object ms =>
    obtain ⟨⟨k, others⟩, hsplit, hret⟩ := bind_eq_ok_iff.mp h
    cases hret
    obtain ⟨-, rfl⟩ := split_none_eq_ok_iff.mp hsplit
    have hms : ∀ m ∈ ms, m.2.height ≤ Json.heightMembers ms := Json.heightMembers_le_iff.mp (Nat.le_refl _)
    rw [Json.height, Nat.lt_succ_iff]
    exact Json.heightMembers_le_iff.mpr fun m hm => hms m (List.mem_of_mem_filter hm)
  | array js =>
    cases js with
    | nil => cases h
    | cons t js =>
      obtain ⟨k, htag, hret⟩ := bind_eq_ok_iff.mp h
      cases hret
      rw [Json.height, Json.heightItems, Nat.lt_succ_iff]
      exact Nat.le_max_right _ _
  | _ => cases h

/-- The tag is no slot. -/
theorem type_not_mem_names (kind : Kind) : "type" ∉ (nodeSchema kind).slots.map Slot.name := by
  cases kind <;> decide

end Kinds

end Decode

/-! ## Trees -/

namespace Expr

open Decode

variable {j : Json} {m n : Nat}

/-- A value is decoded in the same way with any steps that are enough for its height. -/
theorem decode_eq_decode (hm : j.height ≤ m) (hn : j.height ≤ n) : decode m j = decode n j := by
  induction m generalizing j n with
  | zero => exact absurd j.height_pos (by omega)
  | succ m ih =>
    obtain ⟨n, rfl⟩ : ∃ n', n = n' + 1 := ⟨n - 1, by have := j.height_pos; omega⟩
    rw [decode, decode]
    cases htag : tagged j with
    | error x => rfl
    | ok node =>
      obtain ⟨kind, content⟩ := node
      have hcontent := contentHeight_lt htag
      exact node_congr (fun i hi => ih (by omega) (by omega)) (Nat.le_refl _) kind

/-- Steps that are enough give what the value stands for. -/
theorem decode_of_height_le (h : j.height ≤ n) : decode n j = ofValue j :=
  decode_eq_decode h (Nat.le_refl _)

/-- A node decodes its children as they would be decoded alone. -/
theorem node_decode {content : Decode.Content} (h : Load.contentHeight content ≤ n) (kind : Kind) :
    node (decode n) kind content = node ofValue kind content :=
  node_congr (fun _ hi => decode_of_height_le hi) h kind

/-- A value stands for an expression when it is tagged and its content is decoded as that kind of node. -/
theorem ofValue_eq_ok_iff {e : Expr} :
    ofValue j = .ok e ↔ ∃ kind content, tagged j = .ok (kind, content) ∧ node ofValue kind content = .ok e := by
  rw [← decode_of_height_le (Nat.le_succ j.height), decode, bind_eq_ok_iff]
  constructor
  · rintro ⟨⟨kind, content⟩, htag, hnode⟩
    have hcontent := contentHeight_lt htag
    exact ⟨kind, content, htag, (node_decode (Nat.le_of_lt hcontent) kind) ▸ hnode⟩
  · rintro ⟨kind, content, htag, hnode⟩
    have hcontent := contentHeight_lt htag
    exact ⟨(kind, content), htag, (node_decode (Nat.le_of_lt hcontent) kind).trans hnode⟩

/-- The kind is taken from the only member `type`, wherever it stands, and the other members are read by the table
of the kind. -/
theorem ofValue_object_eq_ok_iff {ms : List (String × Json)} {e : Expr} :
    ofValue (.object ms) = .ok e ↔
      ∃ t kind, valuesOf "type" ms = [t] ∧ tag t = .ok kind ∧ (nodeSchema kind).readMembers ofValue ms = .ok e := by
  have hread : ∀ kind, (nodeSchema kind).readMembers ofValue (ms.filter fun m => m.1 ≠ "type") = .ok e ↔
      (nodeSchema kind).readMembers ofValue ms = .ok e := by
    intro kind
    rw [Schema.readMembers_eq_ok_iff, Schema.readMembers_eq_ok_iff]
    refine exists_congr fun f => and_congr_left fun _ => forall₂_congr fun s hs => ?_
    have hname : s.name ≠ "type" := fun h => type_not_mem_names kind (h ▸ List.mem_map_of_mem hs)
    rw [Schema.collect_filter hname]
  rw [ofValue_eq_ok_iff]
  constructor
  · rintro ⟨kind, content, htag, hnode⟩
    obtain ⟨⟨k, others⟩, hsplit, hret⟩ := bind_eq_ok_iff.mp htag
    cases hret
    obtain ⟨⟨t, ht, hkind⟩, rfl⟩ := split_none_eq_ok_iff.mp hsplit
    rw [node_eq_read] at hnode
    exact ⟨t, kind, ht, hkind, (hread kind).mp hnode⟩
  · rintro ⟨t, kind, ht, hkind, hnode⟩
    have hsplit := split_none_eq_ok_iff.mpr ⟨⟨t, ht, hkind⟩, rfl⟩
    refine ⟨kind, _, bind_eq_ok_iff.mpr ⟨_, hsplit, rfl⟩, ?_⟩
    rw [node_eq_read]
    exact (hread kind).mpr hnode

/-- An array stands for an expression when its first item is the tag and the others are read by position. -/
theorem ofValue_array_eq_ok_iff {js : List Json} {e : Expr} :
    ofValue (.array js) = .ok e ↔
      ∃ t rest kind, js = t :: rest ∧ tag t = .ok kind ∧ (nodeSchema kind).readItems ofValue rest = .ok e := by
  rw [ofValue_eq_ok_iff]
  constructor
  · rintro ⟨kind, content, htag, hnode⟩
    cases js with
    | nil => cases htag
    | cons t js =>
      obtain ⟨k, hkind, hret⟩ := bind_eq_ok_iff.mp htag
      cases hret
      rw [node_eq_read] at hnode
      exact ⟨t, js, kind, rfl, hkind, hnode⟩
  · rintro ⟨t, rest, kind, rfl, hkind, hnode⟩
    refine ⟨kind, .array rest, bind_eq_ok_iff.mpr ⟨kind, hkind, rfl⟩, ?_⟩
    rw [node_eq_read]
    exact hnode

end Expr

end MetricQuery
