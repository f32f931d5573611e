import MetricQuery.Proofs.DecodedTrees
import MetricQuery.Proofs.JsonNumbers

/-!
# Trees with restored numbers

A stored tree comes back with other numbers where the JSON reader does not return the number that was written. That is
the only difference, so what comes back is `Expr.restored`: the tree with `Double.restored` applied to each literal. Its
JSON value is that of the tree with the same done to each float, `encode_mapNumbers`, and it has finite numbers and the
names that it needs where the tree has.
-/

set_option autoImplicit false

namespace MetricQuery

namespace Expr

mutual

/-- The tree with another number in each literal. -/
def mapNumbers (g : Double → Double) : Expr → Expr
  | number x => number (g x)
  | text s => text s
  | selector s => selector s
  | subquery body w => subquery (body.mapNumbers g) w
  | unary op e => unary op (e.mapNumbers g)
  | aggregation op e param group => aggregation op (e.mapNumbers g) (mapNumbersParam g param) group
  | binary op l r m => binary op (l.mapNumbers g) (r.mapNumbers g) m
  | call f args => call f (mapNumbersArgs g args)

/-- Changes the numbers of a parameter. -/
def mapNumbersParam (g : Double → Double) : Option Expr → Option Expr
  | none => none
  | some e => some (e.mapNumbers g)

/-- Changes the numbers of arguments. -/
def mapNumbersArgs (g : Double → Double) : List Expr → List Expr
  | [] => []
  | e :: es => e.mapNumbers g :: mapNumbersArgs g es

end

/-- What a stored tree comes back as. -/
def restored (e : Expr) : Expr :=
  e.mapNumbers Double.restored

variable {g : Double → Double}

/-- Changing its numbers leaves an expression of its kind. -/
theorem kind_mapNumbers (e : Expr) : (e.mapNumbers g).kind = e.kind := by
  cases e <;> rfl

/-! ## Values -/

section Values

open Json (mapFloats mapFloatsItems mapFloatsMembers)

/-- Numbers are changed in one group of members and in the other. -/
theorem mapFloatsMembers_append (xs ys : List (String × Json)) :
    mapFloatsMembers g (xs ++ ys) = mapFloatsMembers g xs ++ mapFloatsMembers g ys := by
  induction xs with
  | nil => rfl
  | cons m xs ih =>
    obtain ⟨key, j⟩ := m
    rw [List.cons_append, mapFloatsMembers, mapFloatsMembers, ih, List.cons_append]

/-- No number changes in items that have none. -/
theorem mapFloatsItems_map {α : Type} (encode : α → Json) (h : ∀ a, (encode a).mapFloats g = encode a) (as : List α) :
    mapFloatsItems g (as.map encode) = as.map encode := by
  apply Json.mapFloatsItems_of_forall
  intro j hj
  obtain ⟨a, -, rfl⟩ := List.mem_map.mp hj
  exact h a

/-- No number changes in a text. -/
theorem mapFloatsMembers_text (key : String) (v : Option String) :
    mapFloatsMembers g (textMember key v) = textMember key v := by
  cases v <;> rfl

/-- No number changes in a name. -/
theorem mapFloatsMembers_name {α : Type} [Vocabulary α] (key : String) (v : Option α) :
    mapFloatsMembers g (optionalMember key encodeName v) = optionalMember key encodeName v := by
  cases v <;> rfl

/-- No number changes in labels. -/
theorem mapFloatsMembers_labels (key : String) (ls : List String) :
    mapFloatsMembers g (labelsMember key ls) = labelsMember key ls := by
  cases ls with
  | nil => rfl
  | cons l ls =>
    simp only [labelsMember, mapFloatsMembers, mapFloats, mapFloatsItems_map Json.string (fun _ => rfl)]

/-- A number can be changed before or after it is encoded, if the change keeps whether it is finite. -/
theorem encode_number (hg : ∀ x, (g x).isFinite = x.isFinite) (x : Double) :
    encodeNumber (g x) = (encodeNumber x).mapFloats g := by
  unfold encodeNumber
  rw [hg]
  split <;> rfl

/-- So can the numbers of arguments, if those of each can. -/
theorem encodeArgs_mapNumbers {args : List Expr} (h : ∀ c ∈ args, (c.mapNumbers g).encode = c.encode.mapFloats g) :
    encodeArgs (mapNumbersArgs g args) = mapFloatsItems g (encodeArgs args) := by
  induction args with
  | nil => rfl
  | cons e es ih =>
    rw [mapNumbersArgs, encodeArgs, encodeArgs, mapFloatsItems, h e List.mem_cons_self,
      ih fun c hc => h c (List.mem_cons_of_mem e hc)]

/-- The fields of the tree with other numbers, if its children have these numbers. -/
theorem fields_mapNumbers (hg : ∀ x, (g x).isFinite = x.isFinite) (e : Expr)
    (h : ∀ c ∈ e.children, (c.mapNumbers g).encode = c.encode.mapFloats g) :
    (e.mapNumbers g).fields = mapFloatsMembers g e.fields := by
  cases e with
  | number x => simp only [mapNumbers, fields, mapFloatsMembers, encode_number hg]
  | text s => rfl
  | selector s =>
    have hmatchers : mapFloatsItems g (s.matchers.map Matcher.encode) = s.matchers.map Matcher.encode :=
      mapFloatsItems_map Matcher.encode (fun _ => rfl) s.matchers
    simp only [mapNumbers, fields, Selector.members, mapFloatsMembers_append, mapFloatsMembers_text, mapFloatsMembers,
      mapFloats, hmatchers]
  | subquery body w =>
    have hbody := h body List.mem_cons_self
    simp only [mapNumbers, fields, Window.members, mapFloatsMembers, mapFloatsMembers_append, mapFloatsMembers_text,
      hbody]
  | unary op e =>
    have he := h e List.mem_cons_self
    simp only [mapNumbers, fields, mapFloatsMembers, encodeName, mapFloats, he]
  | aggregation op e param group =>
    have he := h e List.mem_cons_self
    have hparam : encodeParam (mapNumbersParam g param) = mapFloatsMembers g (encodeParam param) := by
      cases param with
      | none => rfl
      | some p =>
        have hp := h p (List.mem_cons_of_mem _ List.mem_cons_self)
        simp only [mapNumbersParam, encodeParam, mapFloatsMembers, hp]
    simp only [mapNumbers, fields, Grouping.members, mapFloatsMembers_append, mapFloatsMembers_labels, mapFloatsMembers,
      encodeName, mapFloats, he, hparam]
  | binary op l r m =>
    have hl := h l List.mem_cons_self
    have hr := h r (List.mem_cons_of_mem _ List.mem_cons_self)
    simp only [mapNumbers, fields, Matching.members, mapFloatsMembers_append, mapFloatsMembers_labels,
      mapFloatsMembers_name, mapFloatsMembers, encodeName, mapFloats, hl, hr]
  | call f args =>
    have hargs : encodeArgs (mapNumbersArgs g args) = mapFloatsItems g (encodeArgs args) := encodeArgs_mapNumbers h
    simp only [mapNumbers, fields, mapFloatsMembers, mapFloats, hargs]

/-- The value of the tree with other numbers is the value of the tree with these numbers. -/
theorem encode_mapNumbers (hg : ∀ x, (g x).isFinite = x.isFinite) (e : Expr) :
    (e.mapNumbers g).encode = e.encode.mapFloats g := by
  induction e using childInduction with
  | node e ih =>
    rw [encode_eq, encode_eq, kind_mapNumbers, fields_mapNumbers hg e ih]
    rfl

end Values

/-! ## What does not change -/

/-- The numbers of arguments are changed in each. -/
theorem mapNumbersArgs_eq_map (args : List Expr) : mapNumbersArgs g args = args.map (mapNumbers g) := by
  induction args with
  | nil => rfl
  | cons e es ih => rw [mapNumbersArgs, ih, List.map_cons]

/-- Changing the numbers of an expression changes those of its children. -/
theorem children_mapNumbers (e : Expr) : (e.mapNumbers g).children = e.children.map (mapNumbers g) := by
  cases e with
  | aggregation op e param group => cases param <;> rfl
  | call f args => exact mapNumbersArgs_eq_map args
  | _ => rfl

/-- The number of a literal is finite. -/
def FiniteLiteral : Expr → Prop
  | number x => x.isFinite = true
  | _ => True

/-- The numbers of arguments are finite when those of each are. -/
theorem allFiniteArgs_iff {args : List Expr} : allFiniteArgs args = true ↔ ∀ c ∈ args, c.allFinite = true := by
  induction args with
  | nil => simp [allFiniteArgs]
  | cons e es ih => rw [allFiniteArgs, Bool.and_eq_true, ih, List.forall_mem_cons]

/-- The numbers of an expression are finite when its own is and those of its children are. -/
theorem allFinite_iff_children (e : Expr) :
    e.allFinite = true ↔ e.FiniteLiteral ∧ ∀ c ∈ e.children, c.allFinite = true := by
  cases e with
  | aggregation op e param group => cases param <;> simp [allFinite, allFiniteParam, FiniteLiteral, children]
  | call f args => simp [allFinite, allFiniteArgs_iff, FiniteLiteral, children]
  | _ => simp [allFinite, FiniteLiteral, children]

/-- A change that keeps whether a number is finite keeps whether all are. -/
theorem allFinite_mapNumbers (hg : ∀ x, (g x).isFinite = x.isFinite) (e : Expr) :
    (e.mapNumbers g).allFinite = e.allFinite := by
  induction e using childInduction with
  | node e ih =>
    have hliteral : (e.mapNumbers g).FiniteLiteral ↔ e.FiniteLiteral := by
      cases e with
      | number x => exact (hg x).congr_left
      | _ => exact .rfl
    rw [Bool.eq_iff_iff, allFinite_iff_children, allFinite_iff_children, children_mapNumbers, List.forall_mem_map,
      hliteral]
    exact and_congr_right fun _ => forall₂_congr fun c hc => by rw [ih c hc]

/-- The names of a tree do not depend on its numbers. -/
theorem validate_mapNumbers (e : Expr) : (e.mapNumbers g).validate = .ok () ↔ e.validate = .ok () := by
  induction e using childInduction with
  | node e ih =>
    have hnamed : (e.mapNumbers g).Named ↔ e.Named := by
      cases e <;> exact .rfl
    rw [validate_eq_ok_iff_children, validate_eq_ok_iff_children, children_mapNumbers, List.forall_mem_map, hnamed]
    exact and_congr_right fun _ => forall₂_congr fun c hc => ih c hc

/-- A tree whose numbers stay as they are stays as it is. -/
theorem mapNumbers_eq_self {e : Expr} (h : e.All fun n => ∀ x, n = number x → g x = x) : e.mapNumbers g = e := by
  induction e using childInduction with
  | node e ih =>
    have hbelow : ∀ c ∈ e.children, c.mapNumbers g = c := fun c hc => ih c hc (h.child c hc)
    cases e with
    | number x => rw [mapNumbers, h.root x rfl]
    | text s => rfl
    | selector s => rfl
    | subquery body w => rw [mapNumbers, hbelow body List.mem_cons_self]
    | unary op e => rw [mapNumbers, hbelow e List.mem_cons_self]
    | aggregation op e param group =>
      have hparam : mapNumbersParam g param = param := by
        cases param with
        | none => rfl
        | some p => rw [mapNumbersParam, hbelow p (List.mem_cons_of_mem _ List.mem_cons_self)]
      rw [mapNumbers, hbelow e List.mem_cons_self, hparam]
    | binary op l r m =>
      rw [mapNumbers, hbelow l List.mem_cons_self, hbelow r (List.mem_cons_of_mem _ List.mem_cons_self)]
    | call f args =>
      have hargs : args.map (mapNumbers g) = args := (List.map_congr_left hbelow).trans (List.map_id args)
      rw [mapNumbers, mapNumbersArgs_eq_map, hargs]

end Expr

end MetricQuery
