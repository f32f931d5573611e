import MetricQuery.Expr.Load
import MetricQuery.Proofs.RestoredTrees

/-!
# Loading stored trees

What becomes of a tree that is stored and read again. The text is refused when its brackets nest too deep,
then because of a number that JSON cannot hold, then because of what follows it; otherwise it is read as the tree with
restored numbers. `read_toJson_append` puts this into one equation.

JSON text of a number is read with roundings of its own, so that some numbers come back as their neighbours. Where none
does, the tree comes back as it was, unless it is not valid: `load_toJson`.
-/

set_option autoImplicit false

namespace MetricQuery

namespace Expr

/-- The number of a literal is read back from its JSON text as itself. -/
def NumberReadsBack : Expr → Prop
  | number x => x.isFinite = true → Json.readValue 0 (Json.floatChars x) = .ok (.float x, [])
  | _ => True

/-- A number that is read back is not changed. -/
theorem restored_eq_of_readsBack {x : Double} (h : (number x).NumberReadsBack) : x.restored = x := by
  cases hfinite : x.isFinite with
  | true =>
    have hread := (h hfinite).symm.trans (Double.readValue_floatChars hfinite)
    simp only [Except.ok.injEq, Prod.mk.injEq, Json.float.injEq] at hread
    exact hread.1.symm
  | false =>
    unfold Double.restored
    rw [hfinite, if_neg Bool.false_ne_true]

/-- An expression whose numbers are read back as themselves is restored as itself. -/
theorem restored_eq_self {e : Expr} (h : e.All NumberReadsBack) : e.restored = e := by
  apply mapNumbers_eq_self
  apply h.imp
  rintro _ hnumber x rfl
  exact restored_eq_of_readsBack hnumber

/-! ## Values of trees -/

section Values

variable {P : Json → Prop} (hP : ∀ j : Json, j.isNumber = false → P j)
include hP

/-- What holds of all values that are no numbers holds throughout a text. -/
theorem all_string (s : String) : (Json.string s).All P :=
  .value (hP _ rfl) nofun

/-- So it does throughout an array when it does throughout its items. -/
theorem all_array {js : List Json} (h : ∀ j ∈ js, j.All P) : (Json.array js).All P :=
  .value (hP _ rfl) h

/-- So it does throughout an object when it does throughout its values. -/
theorem all_object {ms : List (String × Json)} (h : ∀ m ∈ ms, m.2.All P) : (Json.object ms).All P := by
  refine .value (hP _ rfl) ?_
  intro c hc
  obtain ⟨m, hm, rfl⟩ := List.mem_map.mp hc
  exact h m hm

/-- So it does throughout an encoded matcher. -/
theorem all_matcher (m : Matcher) : m.encode.All P := by
  apply all_object hP
  simp only [List.forall_mem_cons]
  exact ⟨all_string hP _, all_string hP _, all_string hP _, nofun⟩

omit hP in
/-- An encoded argument comes from an argument. -/
theorem mem_encodeArgs {args : List Expr} {j : Json} (h : j ∈ encodeArgs args) :
    ∃ e ∈ args, j = e.encode := by
  induction args with
  | nil => exact absurd h List.not_mem_nil
  | cons e es ih =>
    rcases List.mem_cons.mp h with rfl | hmem
    · exact ⟨e, List.mem_cons_self, rfl⟩
    · obtain ⟨k, hk, hj⟩ := ih hmem
      exact ⟨k, List.mem_cons_of_mem e hk, hj⟩

/-- The numbers in the value of a tree are finite floats. -/
theorem all_encode (hfloat : ∀ x : Double, x.isFinite = true → P (.float x)) (e : Expr) : e.encode.All P := by
  induction e using childInduction with
  | node e ih =>
    have hfields : ∀ m ∈ e.fields, m.2.All P := by
      apply FieldCases.fields
      constructor
      · intro _ s _
        exact all_string hP s
      · intro _ ls _
        apply all_array hP
        intro j hj
        obtain ⟨l, -, rfl⟩ := List.mem_map.mp hj
        exact all_string hP l
      · intro _ ms _
        apply all_array hP
        intro j hj
        obtain ⟨m, -, rfl⟩ := List.mem_map.mp hj
        exact all_matcher hP m
      · rintro _ x _ rfl
        unfold encodeNumber
        split
        · rename_i hfinite
          exact .value (hfloat x hfinite) nofun
        · exact .value (hP _ rfl) nofun
      · intro _ c _ hc
        exact ih c hc
      · rintro _ f as _ rfl
        apply all_array hP
        intro j hj
        obtain ⟨c, hc, rfl⟩ := mem_encodeArgs hj
        exact ih c hc
    rw [encode_eq]
    apply all_object hP
    rw [List.forall_mem_cons]
    exact ⟨all_string hP _, hfields⟩

end Values

/-- The numbers in the text of a tree are read back restored. -/
theorem all_readsAs_encode (e : Expr) : e.encode.All (Json.ReadsAs Double.restored) :=
  all_encode (fun _ => Json.readsAs_of_not_number) (fun _ hfinite _ => Double.readValue_floatChars hfinite) e

end Expr

/-! ## The object at the top -/

namespace Load

open Json (nextMember readColon readValue within newline prettyMembers stringChars nestingMembers mapFloatsMembers)
open ReadFault (ofJson ofData)

variable {text rest : List Char} {kind : Kind} {g : Double → Double}

/-- Inside a load a result is within the depth as it is by itself. -/
theorem ofJson_within {α : Type} (n d : Nat) (a : α) :
    ofJson (within .malformed n d a) = within (.json .malformed) n d a := by
  unfold within
  split <;> rfl

/-- A member that is not the kind is read at its place, and then the others. -/
theorem members_step {steps : Nat} {first : Bool} {kind : Option Kind} {key : String} {t : List Char}
    (hnext : nextMember first text = .ok (.part key (':' :: t))) (hkey : key ≠ "type") :
    members (steps + 1) first kind text =
      (ofJson (readValue innerDepth t)).bind fun p =>
        (members steps false kind p.2).map fun q => (q.1, (key, p.1) :: q.2.1, q.2.2) := by
  have hcolon : readColon (':' :: t) = .ok t := rfl
  simp only [members, hnext, hcolon, ofJson, bind, Except.bind, if_neg hkey]
  cases readValue innerDepth t with
  | error f => rfl
  | ok p =>
    simp only
    cases members steps false kind p.2 <;> rfl

/-- The members behind the tag are read up to the end of the node. -/
theorem members_tail {ms : List (String × Json)} {steps : Nat} (hkeys : ∀ m ∈ ms, m.1 ≠ "type")
    (hreads : ∀ m ∈ ms, Json.Reads g innerDepth 1 m.2) (hsteps : ms.length < steps) :
    members steps false (some kind) (prettyMembers 1 ms ++ (newline 0 ++ '}' :: rest)) =
      within (.json .malformed) (nestingMembers ms) innerDepth (kind, mapFloatsMembers g ms, rest) := by
  induction ms generalizing steps with
  | nil =>
    obtain ⟨n, rfl⟩ : ∃ n, steps = n + 1 := ⟨steps - 1, by simp at hsteps; omega⟩
    simp only [prettyMembers, List.nil_append, members, Json.nextMember_close]
    rfl
  | cons m ms ih =>
    obtain ⟨key, j⟩ := m
    obtain ⟨n, rfl⟩ : ∃ n, steps = n + 1 := ⟨steps - 1, by omega⟩
    have hlater := ih (fun k hk => hkeys k (List.mem_cons_of_mem _ hk))
      (fun k hk => hreads k (List.mem_cons_of_mem _ hk)) (by simpa using hsteps)
    have htext : prettyMembers 1 ((key, j) :: ms) ++ (newline 0 ++ '}' :: rest) =
        ',' :: (newline 1 ++ (stringChars key ++ ':' :: ' ' :: (j.pretty 1 ++
          (prettyMembers 1 ms ++ (newline 0 ++ '}' :: rest))))) := by
      simp [prettyMembers]
    rw [htext, members_step (Json.nextMember_next key) (hkeys (key, j) List.mem_cons_self),
      Json.readValue_space, hreads (key, j) List.mem_cons_self _ Json.stops_prettyMembers,
      ofJson_within]
    apply Json.within_bind
    rw [hlater, Json.within_map, mapFloatsMembers]

/-- A written name is read as what it names. -/
theorem name_stringChars {α : Type} [Vocabulary α] [LawfulVocabulary α] (a : α) :
    name α (' ' :: (stringChars (Vocabulary.name a) ++ rest)) = .ok (a, rest) := by
  have hread := Json.readString_body (Vocabulary.name a) rest
  rw [Json.stringChars_append]
  show quotedName α _ = _
  unfold quotedName
  rw [hread]
  show (ofData (Decode.named α (Vocabulary.name a))).bind _ = _
  rw [Decode.named_name]
  rfl

end Load

namespace Expr

open Json (within)
open ReadFault (ofJson ofData)

/-- A written expression begins with its tag. -/
theorem write_append (e : Expr) (rest : List Char) :
    e.encode.write ++ rest = '{' :: (Json.newline 1 ++ (Json.stringChars "type" ++ ':' :: ' ' ::
      (Json.stringChars (Vocabulary.name e.kind) ++ (Json.prettyMembers 1 e.fields ++
        (Json.newline 0 ++ '}' :: rest))))) := by
  rw [encode_eq]
  simp [Json.write, Json.pretty, encodeName]

/-- A restored expression is of the same kind. -/
theorem kind_restored (e : Expr) : e.restored.kind = e.kind :=
  kind_mapNumbers e

/-- Its fields are those of the expression with the numbers restored. -/
theorem fields_restored (e : Expr) : e.restored.fields = Json.mapFloatsMembers Double.restored e.fields :=
  fields_mapNumbers Double.isFinite_restored e fun c _ => encode_mapNumbers Double.isFinite_restored c

/-- The text of a tree holds its kind and its fields, as far as these do not nest too deep. -/
theorem tagged_write_append (e : Expr) (rest : List Char) :
    Load.tagged (e.encode.write ++ rest) =
      within (.json .malformed) (Json.nestingMembers e.fields) Load.innerDepth
        (e.restored.kind, .object e.restored.fields, rest) := by
  have htext := e.write_append rest
  have hreads : ∀ m ∈ e.fields, Json.Reads Double.restored Load.innerDepth 1 m.2 := by
    intro m hm
    have hall := e.all_readsAs_encode
    rw [encode_eq] at hall
    refine Json.readValue_pretty_as (hall.part m.2 ?_) _ _
    exact List.mem_map_of_mem (List.mem_cons_of_mem _ hm)
  generalize hinner : Json.newline 1 ++ (Json.stringChars "type" ++ ':' :: ' ' ::
    (Json.stringChars (Vocabulary.name e.kind) ++ (Json.prettyMembers 1 e.fields ++
      (Json.newline 0 ++ '}' :: rest)))) = inner at htext
  have hlater : Load.members inner.length false (some e.kind) (Json.prettyMembers 1 e.fields ++
      (Json.newline 0 ++ '}' :: rest)) =
      within (.json .malformed) (Json.nestingMembers e.fields) Load.innerDepth (e.kind, e.restored.fields, rest) := by
    rw [fields_restored]
    apply Load.members_tail e.ne_type_of_mem_fields hreads
    have hlength := Json.length_le_prettyMembers 1 e.fields
    rw [← hinner]
    simp only [Json.newline, List.length_append, List.length_cons]
    omega
  have hmembers : Load.members (inner.length + 1) true none inner =
      within (.json .malformed) (Json.nestingMembers e.fields) Load.innerDepth (e.kind, e.restored.fields, rest) := by
    have hnext : Json.nextMember true inner = .ok (.part "type" (':' :: ' ' ::
        (Json.stringChars (Vocabulary.name e.kind) ++ (Json.prettyMembers 1 e.fields ++
          (Json.newline 0 ++ '}' :: rest))))) := by
      rw [← hinner]
      exact Json.nextMember_first "type"
    rw [Load.members, hnext]
    show (Load.name Kind _).bind _ = _
    rw [Load.name_stringChars]
    exact hlater
  rw [htext, kind_restored]
  show (Load.members (inner.length + 1) true none inner).bind _ = _
  rw [hmembers]
  exact Json.within_map (ReadFault.json .malformed) _ _ (e.kind, e.restored.fields, rest)
    fun q => (q.1, Decode.Content.object q.2.1, q.2.2)

/-! ## Depth of trees -/

/-- How deep labels are stored: not at all when there are none. -/
def labelsDepth (ls : List String) : Nat :=
  if ls = [] then 0 else 1

mutual

/-- How many brackets are open at once in the text of a tree. The matchers of a selector and the arguments
of a call are written even when there are none, other lists are not. -/
def storedDepth : Expr → Nat
  | number _ => 1
  | text _ => 1
  | selector s => if s.matchers = [] then 2 else 3
  | subquery body _ => body.storedDepth + 1
  | unary _ e => e.storedDepth + 1
  | aggregation _ e param g =>
    max (max e.storedDepth (paramDepth param)) (max (labelsDepth g.keep) (labelsDepth g.drop)) + 1
  | binary _ l r m =>
    max (max l.storedDepth r.storedDepth) (max (labelsDepth m.labels) (labelsDepth m.carried)) + 1
  | call _ args => argsDepth args + 2

/-- How deep a parameter is stored. -/
def paramDepth : Option Expr → Nat
  | none => 0
  | some e => e.storedDepth

/-- How deep arguments are stored. -/
def argsDepth : List Expr → Nat
  | [] => 0
  | e :: es => max e.storedDepth (argsDepth es)

end

section Nesting

open Json (nestingMembers nestingItems)

/-- Two groups of members nest as deep as the deeper one. -/
theorem nestingMembers_append (xs ys : List (String × Json)) :
    nestingMembers (xs ++ ys) = max (nestingMembers xs) (nestingMembers ys) := by
  induction xs with
  | nil => simp [nestingMembers]
  | cons m xs ih =>
    obtain ⟨key, j⟩ := m
    rw [List.cons_append, nestingMembers, nestingMembers, ih, Nat.max_assoc]

/-- A text does not nest. -/
theorem nestingMembers_text (key : String) (v : Option String) :
    nestingMembers (textMember key v) = 0 := by
  cases v <;> rfl

/-- A name does not nest. -/
theorem nestingMembers_name {α : Type} [Vocabulary α] (key : String) (v : Option α) :
    nestingMembers (optionalMember key encodeName v) = 0 := by
  cases v <;> rfl

/-- Items that all nest as deep do so together, unless there are none. -/
theorem nestingItems_map {α : Type} (encode : α → Json) {n : Nat} (h : ∀ a, (encode a).nesting = n)
    (as : List α) : nestingItems (as.map encode) = if as = [] then 0 else n := by
  induction as with
  | nil => rfl
  | cons a as ih =>
    rw [List.map_cons, nestingItems, ih, h]
    split <;> simp

/-- Labels nest as their depth says. -/
theorem nestingMembers_labels (key : String) (ls : List String) :
    nestingMembers (labelsMember key ls) = labelsDepth ls := by
  cases ls with
  | nil => rfl
  | cons l ls =>
    have hitems : nestingItems ((l :: ls).map Json.string) = 0 := by
      rw [nestingItems_map Json.string (fun s => rfl)]
      split <;> rfl
    rw [labelsMember, nestingMembers, nestingMembers, Json.nesting, hitems]
    · rfl
    · exact List.cons_ne_nil l ls

/-- A window does not nest. -/
theorem nestingMembers_window (w : Window) : nestingMembers w.members = 0 := by
  unfold Window.members
  simp only [nestingMembers_append, nestingMembers_text, Nat.max_self]

/-- A grouping nests as its labels do. -/
theorem nestingMembers_grouping (g : Grouping) :
    nestingMembers g.members = max (labelsDepth g.keep) (labelsDepth g.drop) := by
  unfold Grouping.members
  rw [nestingMembers_append, nestingMembers_labels, nestingMembers_labels]

/-- A matching nests as its labels do. -/
theorem nestingMembers_matching (m : Matching) :
    nestingMembers m.members = max (labelsDepth m.labels) (labelsDepth m.carried) := by
  unfold Matching.members
  simp only [nestingMembers_append, nestingMembers_labels, nestingMembers_name, Nat.zero_max, Nat.max_zero]

/-- Arguments nest as their depth says if each does. -/
theorem nestingItems_encodeArgs {args : List Expr} (h : ∀ e ∈ args, e.encode.nesting = e.storedDepth) :
    nestingItems (encodeArgs args) = argsDepth args := by
  induction args with
  | nil => rfl
  | cons e es ih =>
    rw [encodeArgs, nestingItems, argsDepth, h e List.mem_cons_self,
      ih fun k hk => h k (List.mem_cons_of_mem e hk)]

/-- An encoded expression nests one deeper than its fields. -/
theorem nesting_encode_eq (e : Expr) : e.encode.nesting = nestingMembers e.fields + 1 := by
  have hkind : (encodeName e.kind).nesting = 0 := rfl
  rw [encode_eq, Json.nesting, nestingMembers, hkind, Nat.zero_max]

/-- The brackets of a stored tree, counted in the tree. -/
theorem nesting_encode (e : Expr) : e.encode.nesting = e.storedDepth := by
  induction e using childInduction with
  | node e ih =>
    rw [nesting_encode_eq]
    cases e with
    | number x =>
      have hnumber : (encodeNumber x).nesting = 0 := by
        unfold encodeNumber
        split <;> rfl
      rw [fields, nestingMembers, nestingMembers, hnumber]
      rfl
    | text s => rfl
    | selector s =>
      have hmatchers : nestingItems (s.matchers.map Matcher.encode) = if s.matchers = [] then 0 else 1 :=
        nestingItems_map Matcher.encode (fun m => rfl) s.matchers
      simp only [fields, Selector.members, nestingMembers_append, nestingMembers_text, nestingMembers,
        Json.nesting, hmatchers, storedDepth]
      split <;> rfl
    | subquery body w =>
      have hbody := ih body List.mem_cons_self
      rw [fields, nestingMembers, nestingMembers_window, hbody, Nat.max_zero, storedDepth]
    | unary op e =>
      have he := ih e List.mem_cons_self
      have hop : (encodeName op).nesting = 0 := rfl
      simp only [fields, nestingMembers, he, hop, Nat.zero_max, Nat.max_zero, storedDepth]
    | aggregation op e param g =>
      have he := ih e List.mem_cons_self
      have hop : (encodeName op).nesting = 0 := rfl
      have hparam : nestingMembers (encodeParam param) = paramDepth param := by
        cases param with
        | none => rfl
        | some p =>
          have hp := ih p (List.mem_cons_of_mem _ List.mem_cons_self)
          rw [encodeParam, nestingMembers, nestingMembers, hp, paramDepth, Nat.max_zero]
      simp only [fields, nestingMembers_append, nestingMembers_grouping, nestingMembers, he, hop, hparam,
        Nat.zero_max, Nat.max_zero, storedDepth]
    | binary op l r m =>
      have hl := ih l List.mem_cons_self
      have hr := ih r (List.mem_cons_of_mem _ List.mem_cons_self)
      have hop : (encodeName op).nesting = 0 := rfl
      simp only [fields, nestingMembers_append, nestingMembers_matching, nestingMembers, hl, hr, hop,
        Nat.zero_max, Nat.max_zero, storedDepth]
    | call f args =>
      have hargs : nestingItems (encodeArgs args) = argsDepth args := nestingItems_encodeArgs ih
      simp only [fields, nestingMembers, Json.nesting, hargs, Nat.zero_max, Nat.max_zero, storedDepth]

end Nesting

/-! ## Loading -/

/-- The text of a tree and what follows it. The tree is decoded before the text behind it is looked at. -/
theorem read_toJson_append (e : Expr) (rest : List Char) :
    read (e.toJson.toList ++ rest) =
      if e.storedDepth ≤ Json.nestingLimit then
        ofData (finiteOnly e.allFinite e.restored) >>= fun f => ofJson (Json.finish rest) >>= fun _ => .ok f
      else .error (.json .malformed) := by
  have hdepth : e.storedDepth = Json.nestingMembers e.fields + 1 := by
    rw [← nesting_encode, nesting_encode_eq]
  have hlimit : Json.nestingLimit = Load.innerDepth + 1 := rfl
  have htext : e.toJson.toList = e.encode.write := String.toList_ofList
  have hdecode : Decode.node (decode (Load.contentHeight (.object e.restored.fields))) e.restored.kind
      (.object e.restored.fields) = finiteOnly e.allFinite e.restored := by
    rw [← allFinite_mapNumbers Double.isFinite_restored e]
    apply Decode.node_fields
    intro c hc
    exact decode_encode c (height_le_of_mem_children hc)
  unfold read
  rw [htext, tagged_write_append, hdepth, hlimit]
  simp only [Nat.add_le_add_iff_right, within]
  by_cases hle : Json.nestingMembers e.fields ≤ Load.innerDepth
  · rw [if_pos hle, if_pos hle]
    show (ofData (Decode.node _ e.restored.kind _)).bind _ = _
    rw [hdecode]
    rfl
  · rw [if_neg hle, if_neg hle]
    rfl

/-- A stored expression is read back if it is within the limit and its numbers are finite. -/
theorem read_toJson {e : Expr} (h : e.All NumberReadsBack) :
    read e.toJson.toList =
      if e.storedDepth ≤ Json.nestingLimit then ofData (finiteOnly e.allFinite e)
      else .error (.json .malformed) := by
  have hread := e.read_toJson_append []
  rw [List.append_nil, restored_eq_self h] at hread
  rw [hread]
  cases e.allFinite <;> rfl

/-- What loading a stored tree gives, for every tree whose finite numbers are read back: the text is
malformed when it nests deeper than the reader allows; otherwise the first number that is not finite is a
`null` in the place of a number; otherwise the first empty name is reported; and otherwise it is the tree
itself. -/
theorem load_toJson (e : Expr) (h : e.All NumberReadsBack) :
    e.encode.nesting = e.storedDepth ∧
    load e.toJson.toList =
      if Json.nestingLimit < e.storedDepth then .error (.read (.json .malformed))
      else if e.allFinite = false then .error (.read (.data (.wrongType .null .number)))
      else
        match e.validate with
        | .error v => .error (.invalid v)
        | .ok () => .ok e := by
  refine ⟨nesting_encode e, ?_⟩
  unfold load
  rw [read_toJson h]
  by_cases hle : e.storedDepth ≤ Json.nestingLimit
  · rw [if_pos hle, if_neg (Nat.not_lt.mpr hle)]
    cases hfinite : e.allFinite with
    | false => rfl
    | true => rfl
  · rw [if_neg hle, if_pos (Nat.lt_of_not_le hle)]

/-- Half of a rate, with a matcher whose value needs escapes and an offset that is given and empty. -/
def halvedRate : Expr :=
  binary .mul
    (call "rate" [selector { metric := "errors", matchers := [⟨"path", "a\"\n", .regexp⟩],
                             offset := some "", range := some "5m" }])
    (number (.ofRatio false 1 2)) { side := some .left }

/-- Half a rate, which is read back as it was. -/
theorem load_toJson_halvedRate :
    halvedRate.All NumberReadsBack ∧ load halvedRate.toJson.toList = .ok halvedRate := by
  have hreads : halvedRate.All NumberReadsBack := by
    apply All.pair trivial rfl
    · apply All.only trivial rfl
      exact .leaf trivial rfl
    · exact .leaf (fun _ => rfl) rfl
  refine ⟨hreads, ?_⟩
  rw [(load_toJson halvedRate hreads).2]
  rfl

/-! ## Stored numbers -/

/-- A valid tree of finite numbers comes back with restored numbers, unless its brackets nest too deep. -/
theorem load_toJson_of_valid {e : Expr} (hfinite : e.allFinite = true) (hvalid : e.validate = .ok ()) :
    load e.toJson.toList =
      if e.storedDepth ≤ Json.nestingLimit then .ok e.restored else .error (.read (.json .malformed)) := by
  have hread := e.read_toJson_append []
  rw [List.append_nil, hfinite] at hread
  have hrestored : e.restored.validate = .ok () := (validate_mapNumbers e).mpr hvalid
  rw [load, hread]
  split_ifs with hdepth
  · show (match e.restored.validate with | .error v => _ | .ok () => _) = _
    rw [hrestored]
  · rfl

/-- A stored number comes back with its sign and near its value, but not always as itself. It does when the reader can
work without a rounding, with digits below `2 ^ 53` and a power of ten that is a number; otherwise the rounded power of
ten, and the rounding of the product, can take it a few neighbours away. -/
theorem load_toJson_number (x : Double) (hfinite : x.isFinite = true) :
    load (number x).toJson.toList = .ok (number x.restored) ∧
    x.restored.isFinite = true ∧
    x.restored.isNegative = x.isNegative ∧
    Double.Near (Json.slack x.jsonDecimal) x.magnitude x.restored.magnitude ∧
    (Json.slack x.jsonDecimal = 0 → x.restored = x) := by
  obtain ⟨hsign, hrestored, hnear⟩ := Double.restored_near hfinite
  refine ⟨?_, hrestored, hsign, hnear, ?_⟩
  · exact load_toJson_of_valid (e := number x) hfinite rfl
  · intro hslack
    rw [hslack] at hnear
    have hmagnitude : x.restored.magnitude = x.magnitude := Nat.le_antisymm hnear.2 hnear.1
    rw [← x.restored.ofMagnitude_isNegative_magnitude, hsign, hmagnitude, x.ofMagnitude_isNegative_magnitude]

/-- The greatest odd number that is exact has sixteen digits, and is read as the even number below it. -/
theorem load_toJson_greatest_odd :
    (Double.ofNat (2 ^ 53 - 1)).isFinite = true ∧
    load (number (.ofNat (2 ^ 53 - 1))).toJson.toList = .ok (number (.ofNat (2 ^ 53 - 2))) := by
  have hfinite : (Double.ofNat (2 ^ 53 - 1)).isFinite = true := by decide
  refine ⟨hfinite, ?_⟩
  rw [(load_toJson_number (.ofNat (2 ^ 53 - 1)) hfinite).1]
  have hrestored : (Double.ofNat (2 ^ 53 - 1)).restored = .ofNat (2 ^ 53 - 2) := by decide
  rw [hrestored]

end Expr

end MetricQuery
