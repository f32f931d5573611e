import MetricQuery.Proofs.DecodedTrees
import MetricQuery.Proofs.FieldTables
import Mathlib.Data.List.Basic
import Mathlib.Data.List.Pairwise

/-!
# Members in any order

What is read from the members of an object depends on little. Every slot sees the values of its own key and
nothing else, `gather_eq_ok_iff`, and since a field cannot be given twice there is at most one such value. So the
members may come in any order, others may stand between them, and `null` may stand in an optional field or not:
each of these is read off from `readMembers_eq_ok_iff`, without a look at the table. In an array the slots have
their values by position, and one of them can be exchanged for another that means the same.
-/

set_option autoImplicit false

namespace MetricQuery

namespace Decode

/-! ## The values of a key -/

/-- The values of the members with a key, from first to last. -/
def valuesOf (key : String) (ms : List (String × Json)) : List Json :=
  (ms.filter fun m => m.1 = key).map Prod.snd

section Values

variable {key k : String} {j : Json} {ms ns : List (String × Json)}

/-- A member with the key comes first among the values of the key. -/
theorem valuesOf_cons_self : valuesOf key ((key, j) :: ms) = j :: valuesOf key ms := by
  simp [valuesOf]

/-- A member with another key is not among them. -/
theorem valuesOf_cons_of_ne (h : key ≠ k) : valuesOf key ((k, j) :: ms) = valuesOf key ms := by
  simp [valuesOf, h.symm]

/-- Members in another order have the same values for a key, perhaps in another order. -/
theorem valuesOf_perm (h : ms.Perm ns) : (valuesOf key ms).Perm (valuesOf key ns) :=
  (h.filter _).map _

/-- A key that no member has has no values. -/
theorem valuesOf_eq_nil (h : key ∉ ms.map Prod.fst) : valuesOf key ms = [] := by
  rw [valuesOf, List.map_eq_nil_iff, List.filter_eq_nil_iff]
  intro m hm hkey
  exact h (List.mem_map.mpr ⟨m, hm, of_decide_eq_true hkey⟩)

end Values

/-! ## One slot -/

namespace Slot

variable {σ : Type} {s : Slot σ} {child : Json → Decoded Expr}

/-- What a slot holds after the values of its key, from first to last. -/
def collect (s : Slot σ) (child : Json → Decoded Expr) : Option s.Value → List Json → Decoded (Option s.Value)
  | v, [] => .ok v
  | v, j :: js => do s.collect child (← fill v s.name (s.shape.decode child j)) js

/-- A slot that has its value takes no other. -/
theorem collect_some_eq_ok_iff {a : s.Value} {js : List Json} {w : Option s.Value} :
    s.collect child (some a) js = .ok w ↔ js = [] ∧ w = some a := by
  cases js with
  | nil => simp [collect, eq_comm]
  | cons j js => exact ⟨nofun, nofun⟩

/-- A slot takes one value at most. -/
theorem collect_none_eq_ok_iff {js : List Json} {w : Option s.Value} :
    s.collect child none js = .ok w ↔
      js = [] ∧ w = none ∨ ∃ j a, js = [j] ∧ s.shape.decode child j = .ok a ∧ w = some a := by
  cases js with
  | nil => simp [collect, eq_comm]
  | cons j js =>
    rw [collect, fill]
    cases hj : s.shape.decode child j with
    | error x => simp [hj, bind, Except.bind]
    | ok a =>
      show s.collect child (some a) js = _ ↔ _
      simp [collect_some_eq_ok_iff, hj]

/-- A slot collects the same from values in another order, since it takes one at most. -/
theorem collect_perm {js ks : List Json} {w : Option s.Value} (hperm : js.Perm ks)
    (h : s.collect child none js = .ok w) : s.collect child none ks = .ok w := by
  rcases collect_none_eq_ok_iff.mp h with ⟨rfl, -⟩ | ⟨j, a, rfl, -, -⟩
  · rwa [hperm.nil_eq] at h
  · rwa [List.perm_singleton.mp hperm.symm]

/-- A slot collects the same from a value that is decoded as another. -/
theorem collect_cons_replace {j k : Json} {js : List Json} {w : Option s.Value}
    (hdecode : ∀ a, s.shape.decode child j = .ok a → s.shape.decode child k = .ok a)
    (h : s.collect child none (j :: js) = .ok w) : s.collect child none (k :: js) = .ok w := by
  rcases collect_none_eq_ok_iff.mp h with ⟨hnil, -⟩ | ⟨i, a, hjs, hi, hw⟩
  · cases hnil
  · cases hjs
    exact collect_none_eq_ok_iff.mpr (.inr ⟨k, a, rfl, hdecode a hi, hw⟩)

end Slot

/-! ## All slots -/

section PutIn

variable {σ : Type} {child : Json → Decoded Expr} {slots : List (Slot σ)} {f : σ} {key : String} {j : Json}

/-- A member that no slot is named for goes nowhere. -/
theorem putIn_of_not_mem (h : key ∉ slots.map Slot.name) : putIn child slots f key j = .ok f := by
  induction slots with
  | nil => rfl
  | cons s slots ih =>
    rw [List.map_cons, List.mem_cons, not_or] at h
    rw [putIn, if_neg h.1]
    exact ih h.2

/-- A member that a slot is named for goes there. -/
theorem putIn_of_mem (hapart : slots.Pairwise Slot.Apart) {s : Slot σ} (hs : s ∈ slots) :
    putIn child slots f s.name j = s.put child f j := by
  induction slots with
  | nil => exact absurd hs List.not_mem_nil
  | cons t slots ih =>
    rw [List.pairwise_cons] at hapart
    rcases List.mem_cons.mp hs with rfl | hmem
    · rw [putIn, if_pos rfl]
    · rw [putIn, if_neg (hapart.1 s hmem).name_ne.symm]
      exact ih hapart.2 hmem

end PutIn

namespace Schema

variable {α : Type} {S : Schema α} {child : Json → Decoded Expr} {ms ns : List (String × Json)} {a : α}
  {key : String} {j k : Json}

/-- Two slots of a schema are the same or apart. -/
theorem eq_or_apart {s t : Slot S.Fields} (hs : s ∈ S.slots) (ht : t ∈ S.slots) : s = t ∨ s.Apart t := by
  have hsymm : Std.Symm fun s t : Slot S.Fields => s.Apart t := ⟨fun _ _ h => h.symm⟩
  by_cases heq : s = t
  · exact .inl heq
  · exact .inr (S.apart.forall hs ht heq)

/-- Every slot sees the values of its own key and nothing else. -/
theorem gather_eq_ok_iff {f g : S.Fields} :
    gather (putIn child S.slots) f ms = .ok g ↔
      ∀ s ∈ S.slots, s.collect child (s.get f) (valuesOf s.name ms) = .ok (s.get g) := by
  induction ms generalizing f with
  | nil =>
    constructor
    · intro h s hs
      cases h
      rfl
    · intro h
      rw [S.ext f g fun s hs => Except.ok.inj (h s hs)]
      rfl
  | cons m ms ih =>
    obtain ⟨key, j⟩ := m
    by_cases hkey : key ∈ S.slots.map Slot.name
    · obtain ⟨s, hs, rfl⟩ := List.mem_map.mp hkey
      have hput : putIn child S.slots f s.name j = s.put child f j := putIn_of_mem S.apart hs
      have hself : s.collect child (s.get f) (valuesOf s.name ((s.name, j) :: ms)) =
          (fill (s.get f) s.name (s.shape.decode child j)).bind fun v => s.collect child v (valuesOf s.name ms) := by
        rw [valuesOf_cons_self]
        rfl
      rw [gather, hput, Slot.put]
      cases hfill : fill (s.get f) s.name (s.shape.decode child j) with
      | error x =>
        constructor
        · intro h
          cases h
        · intro h
          have hs' := h s hs
          rw [hself, hfill] at hs'
          cases hs'
      | ok v =>
        refine ih.trans (forall₂_congr fun t ht => ?_)
        rcases eq_or_apart hs ht with rfl | hapart
        · rw [hself, hfill, s.get_set]
          rfl
        · rw [hapart.get_right, valuesOf_cons_of_ne hapart.name_ne.symm]
    · rw [gather_cons (putIn_of_not_mem hkey)]
      refine ih.trans (forall₂_congr fun s hs => ?_)
      have hne : s.name ≠ key := fun h => hkey (h ▸ List.mem_map_of_mem hs)
      rw [valuesOf_cons_of_ne hne]

/-- Members are read when each slot collects its value and the fields can be finished. -/
theorem readMembers_eq_ok_iff :
    S.readMembers child ms = .ok a ↔
      ∃ f, (∀ s ∈ S.slots, s.collect child none (valuesOf s.name ms) = .ok (s.get f)) ∧ S.finish f = .ok a := by
  refine bind_eq_ok_iff.trans (exists_congr fun f => and_congr_left fun _ => ?_)
  refine gather_eq_ok_iff.trans (forall₂_congr fun s hs => ?_)
  rw [S.get_empty s hs]

/-- Members that every slot takes for the same are read as the same. -/
theorem readMembers_of_collect
    (hcollect : ∀ s ∈ S.slots, ∀ v, s.collect child none (valuesOf s.name ms) = .ok v →
      s.collect child none (valuesOf s.name ns) = .ok v)
    (h : S.readMembers child ms = .ok a) : S.readMembers child ns = .ok a := by
  obtain ⟨f, hslots, hfinish⟩ := readMembers_eq_ok_iff.mp h
  exact readMembers_eq_ok_iff.mpr ⟨f, fun s hs => hcollect s hs _ (hslots s hs), hfinish⟩

/-- Members are read in any order. -/
theorem readMembers_perm (hperm : ms.Perm ns) (h : S.readMembers child ms = .ok a) :
    S.readMembers child ns = .ok a :=
  readMembers_of_collect (fun _ _ _ hv => Slot.collect_perm (valuesOf_perm hperm) hv) h

/-- A member that no slot is named for is ignored. -/
theorem readMembers_cons_of_not_mem (hkey : key ∉ S.slots.map Slot.name) :
    S.readMembers child ((key, j) :: ms) = S.readMembers child ms := by
  rw [readMembers, gather_cons (putIn_of_not_mem hkey)]
  rfl

/-- A member is read in the same way with a value that is decoded as the other. -/
theorem readMembers_cons_replace
    (hdecode : ∀ s ∈ S.slots, s.name = key → ∀ a, s.shape.decode child j = .ok a → s.shape.decode child k = .ok a)
    (h : S.readMembers child ((key, j) :: ms) = .ok a) : S.readMembers child ((key, k) :: ms) = .ok a := by
  refine readMembers_of_collect (fun s hs v hv => ?_) h
  by_cases hname : s.name = key
  · subst hname
    rw [valuesOf_cons_self] at hv ⊢
    exact Slot.collect_cons_replace (hdecode s hs rfl) hv
  · rwa [valuesOf_cons_of_ne hname] at hv ⊢

/-- Members with other keys than a slot's own are none of its business. -/
theorem collect_filter {s : Slot S.Fields} {v : Option s.Value} (hname : s.name ≠ key) :
    s.collect child v (valuesOf s.name (ms.filter fun m => m.1 ≠ key)) = s.collect child v (valuesOf s.name ms) := by
  congr 1
  unfold valuesOf
  rw [List.filter_filter]
  congr 1
  refine List.filter_congr fun m _ => ?_
  by_cases hm : m.1 = s.name
  · simp [hm, hname]
  · simp [hm]

/-- The same slots, but for one. -/
theorem collect_set {s t : Slot S.Fields} {f : S.Fields} {v : Option s.Value} (hs : s ∈ S.slots) (ht : t ∈ S.slots)
    (hself : s.collect child none (valuesOf s.name ns) = .ok v)
    (hother : t.name ≠ s.name → t.collect child none (valuesOf t.name ns) = .ok (t.get f)) :
    t.collect child none (valuesOf t.name ns) = .ok (t.get (s.set f v)) := by
  rcases eq_or_apart hs ht with rfl | hapart
  · rw [hself, s.get_set]
  · rw [hother hapart.name_ne.symm, hapart.get_right]

/-- A member that is null can be written where it may be left out. -/
theorem readMembers_cons_null {s : Slot S.Fields} {v : s.Value} (hs : s ∈ S.slots) (hblank : s.shape.blank = some v)
    (hfresh : s.name ∉ ms.map Prod.fst) (h : S.readMembers child ms = .ok a) :
    S.readMembers child ((s.name, .null) :: ms) = .ok a := by
  obtain ⟨f, hslots, hfinish⟩ := readMembers_eq_ok_iff.mp h
  have hnil : valuesOf s.name ms = [] := valuesOf_eq_nil hfresh
  have hget : s.get f = none := by
    have hs' := hslots s hs
    rw [hnil] at hs'
    exact (Except.ok.inj hs').symm
  have hself : s.collect child none (valuesOf s.name ((s.name, .null) :: ms)) = .ok (some v) := by
    rw [valuesOf_cons_self, hnil]
    exact Slot.collect_none_eq_ok_iff.mpr (.inr ⟨.null, v, rfl, Shape.decode_null hblank, rfl⟩)
  refine readMembers_eq_ok_iff.mpr ⟨s.set f (some v), fun t ht => collect_set hs ht hself fun hne => ?_, ?_⟩
  · rw [valuesOf_cons_of_ne hne]
    exact hslots t ht
  · rw [S.finish_blank s hs v hblank f hget]
    exact hfinish

/-- A member that is null can be left out. -/
theorem readMembers_of_cons_null {s : Slot S.Fields} {v : s.Value} (hs : s ∈ S.slots)
    (hblank : s.shape.blank = some v) (h : S.readMembers child ((s.name, .null) :: ms) = .ok a) :
    S.readMembers child ms = .ok a := by
  obtain ⟨f, hslots, hfinish⟩ := readMembers_eq_ok_iff.mp h
  have hs' := hslots s hs
  rw [valuesOf_cons_self] at hs'
  rcases Slot.collect_none_eq_ok_iff.mp hs' with ⟨hnil, -⟩ | ⟨j, b, hjs, hj, hget⟩
  · cases hnil
  rw [List.cons.injEq] at hjs
  obtain ⟨rfl, hnil⟩ := hjs
  rw [Shape.decode_null hblank] at hj
  cases hj
  have hself : s.collect child none (valuesOf s.name ms) = .ok none := by
    rw [hnil]
    rfl
  -- Without the member the fields are the same but for this slot, which is empty.
  refine readMembers_eq_ok_iff.mpr ⟨s.set f none, fun t ht => collect_set hs ht hself fun hne => ?_, ?_⟩
  · rw [← valuesOf_cons_of_ne (k := s.name) (j := .null) hne]
    exact hslots t ht
  · have hback : s.set (s.set f none) (some v) = f := by
      refine S.ext _ _ fun t ht => ?_
      rcases eq_or_apart hs ht with rfl | hapart
      · rw [s.get_set, hget]
      · rw [hapart.get_right, hapart.get_right]
    rw [← S.finish_blank s hs v hblank (s.set f none) (s.get_set f none), hback]
    exact hfinish

/-! ## Fields by position -/

/-- Items are taken in the same way with one that is decoded as another. -/
theorem takeIn_replace {σ : Type} {record : Record} {present : Nat} {slots : List (Slot σ)} {f g : σ} {s : Slot σ}
    {before after : List Json} (hs : slots[before.length]? = some s)
    (hdecode : ∀ a, s.shape.decode child j = .ok a → s.shape.decode child k = .ok a)
    (h : takeIn child record present slots f (before ++ j :: after) = .ok g) :
    takeIn child record present slots f (before ++ k :: after) = .ok g := by
  induction before generalizing slots f with
  | nil =>
    cases slots with
    | nil => cases hs
    | cons t slots =>
      cases hs
      obtain ⟨a, ha, hrest⟩ := bind_eq_ok_iff.mp h
      exact bind_eq_ok_iff.mpr ⟨a, hdecode a ha, hrest⟩
  | cons i before ih =>
    cases slots with
    | nil => cases hs
    | cons t slots =>
      obtain ⟨a, ha, hrest⟩ := bind_eq_ok_iff.mp h
      exact bind_eq_ok_iff.mpr ⟨a, ha, ih hs hrest⟩

/-- Items are read in the same way with one that is decoded as another. -/
theorem readItems_replace {s : Slot S.Fields} {before after : List Json} (hs : S.slots[before.length]? = some s)
    (hdecode : ∀ a, s.shape.decode child j = .ok a → s.shape.decode child k = .ok a)
    (h : S.readItems child (before ++ j :: after) = .ok a) : S.readItems child (before ++ k :: after) = .ok a := by
  have hlength : (before ++ k :: after).length = (before ++ j :: after).length := by simp
  obtain ⟨f, htake, hfinish⟩ := bind_eq_ok_iff.mp h
  rw [readItems, hlength]
  exact bind_eq_ok_iff.mpr ⟨f, takeIn_replace hs hdecode htake, hfinish⟩

end Schema

end Decode

end MetricQuery
