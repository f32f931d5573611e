import MetricQuery.Proofs.JsonScalars

/-!
# Reading written JSON

What the writer makes of a value is read back as the value when its brackets nest no deeper than the reader
allows, and is malformed otherwise. The condition is about all brackets at once: whichever of them is too
deep, the reader meets it before anything else can go wrong.

Numbers are the exception, since not every number is read back as itself. The statement `readValue_pretty_as` is about
values whose numbers come back as some function says, `Json.All (ReadsAs g)`, and gives the value with these numbers.
-/

set_option autoImplicit false

namespace MetricQuery.Json

/-! ## Nesting -/

mutual

/-- How many brackets are open at once inside a value. -/
def nesting : Json → Nat
  | array items => nestingItems items + 1
  | object members => nestingMembers members + 1
  | _ => 0

/-- How deep items nest. -/
def nestingItems : List Json → Nat
  | [] => 0
  | j :: js => max j.nesting (nestingItems js)

/-- How deep members nest. -/
def nestingMembers : List (String × Json) → Nat
  | [] => 0
  | (_, j) :: js => max j.nesting (nestingMembers js)

end

/-- Items nest no deeper than a bound when each does. -/
theorem nestingItems_le_iff {js : List Json} {n : Nat} : nestingItems js ≤ n ↔ ∀ j ∈ js, j.nesting ≤ n := by
  induction js with
  | nil => simp [nestingItems]
  | cons j js ih => rw [nestingItems, Nat.max_le, ih, List.forall_mem_cons]

/-- Members nest no deeper than a bound when each value does. -/
theorem nestingMembers_le_iff {ms : List (String × Json)} {n : Nat} :
    nestingMembers ms ≤ n ↔ ∀ m ∈ ms, m.2.nesting ≤ n := by
  induction ms with
  | nil => simp [nestingMembers]
  | cons m ms ih => rw [nestingMembers, Nat.max_le, ih, List.forall_mem_cons]

/-- The values right inside a bracket. -/
def parts : Json → List Json
  | array items => items
  | object members => members.map Prod.snd
  | _ => []

/-- A part nests less deep than the whole. -/
theorem nesting_lt_of_mem_parts {c j : Json} (h : c ∈ j.parts) : c.nesting < j.nesting := by
  cases j with
  | array items =>
    rw [nesting, Nat.lt_succ_iff]
    exact nestingItems_le_iff.mp (Nat.le_refl _) c h
  | object members =>
    obtain ⟨m, hm, rfl⟩ := List.mem_map.mp h
    rw [nesting, Nat.lt_succ_iff]
    exact nestingMembers_le_iff.mp (Nat.le_refl _) m hm
  | _ => exact absurd h List.not_mem_nil

/-- A part is smaller than the whole. -/
theorem sizeOf_lt_of_mem_parts {c j : Json} (h : c ∈ j.parts) : sizeOf c < sizeOf j := by
  cases j with
  | array items =>
    have hlt : sizeOf c < sizeOf items := List.sizeOf_lt_of_mem h
    simp only [array.sizeOf_spec]
    omega
  | object members =>
    rw [parts, List.mem_map] at h
    obtain ⟨m, hm, rfl⟩ := h
    have hlt : sizeOf m < sizeOf members := List.sizeOf_lt_of_mem hm
    have hsnd : sizeOf m.2 < sizeOf m := by
      cases m
      simp only [Prod.mk.sizeOf_spec]
      omega
    simp only [object.sizeOf_spec]
    omega
  | _ => exact absurd h List.not_mem_nil

/-- What holds of a value when it holds of its parts holds of every value. -/
@[elab_as_elim]
theorem partInduction {motive : Json → Prop}
    (value : ∀ j : Json, (∀ c ∈ j.parts, motive c) → motive j) (j : Json) : motive j :=
  value j fun c _ => partInduction value c
termination_by sizeOf j
decreasing_by exact sizeOf_lt_of_mem_parts ‹_›

/-- The property holds of a value and of all values inside it. -/
inductive All (P : Json → Prop) : Json → Prop where
  | value {j : Json} (here : P j) (below : ∀ c ∈ j.parts, All P c) : All P j

/-- What holds throughout a value holds of it. -/
theorem All.root {P : Json → Prop} {j : Json} (h : j.All P) : P j := by
  cases h
  assumption

/-- What holds throughout a value holds throughout its parts. -/
theorem All.part {P : Json → Prop} {j : Json} (h : j.All P) : ∀ c ∈ j.parts, c.All P := by
  cases h
  assumption

/-- What follows throughout from something that holds throughout does so too. -/
theorem All.imp {P Q : Json → Prop} {j : Json} (hPQ : ∀ k, P k → Q k) (h : j.All P) : j.All Q := by
  induction h with
  | value here _ ih => exact .value (hPQ _ here) ih

/-! ## Other numbers -/

mutual

/-- The value with another number in the place of each float. -/
def mapFloats (g : Double → Double) : Json → Json
  | null => null
  | bool b => bool b
  | integer n => integer n
  | float x => float (g x)
  | string s => string s
  | array items => array (mapFloatsItems g items)
  | object members => object (mapFloatsMembers g members)

/-- Changes the numbers in items. -/
def mapFloatsItems (g : Double → Double) : List Json → List Json
  | [] => []
  | j :: js => j.mapFloats g :: mapFloatsItems g js

/-- Changes the numbers in members. -/
def mapFloatsMembers (g : Double → Double) : List (String × Json) → List (String × Json)
  | [] => []
  | (key, j) :: js => (key, j.mapFloats g) :: mapFloatsMembers g js

end

/-- A change of numbers that leaves each item alone leaves them all alone. -/
theorem mapFloatsItems_of_forall {g : Double → Double} {js : List Json} (h : ∀ j ∈ js, j.mapFloats g = j) :
    mapFloatsItems g js = js := by
  induction js with
  | nil => rfl
  | cons j js ih =>
    rw [mapFloatsItems, h j List.mem_cons_self, ih fun k hk => h k (List.mem_cons_of_mem j hk)]

/-- So it does with members. -/
theorem mapFloatsMembers_of_forall {g : Double → Double} {js : List (String × Json)}
    (h : ∀ m ∈ js, m.2.mapFloats g = m.2) : mapFloatsMembers g js = js := by
  induction js with
  | nil => rfl
  | cons m js ih =>
    obtain ⟨key, j⟩ := m
    rw [mapFloatsMembers, h (key, j) List.mem_cons_self, ih fun k hk => h k (List.mem_cons_of_mem _ hk)]

/-- Changing no number changes nothing. -/
theorem mapFloats_id (j : Json) : j.mapFloats id = j := by
  induction j using partInduction with
  | value j ih =>
    cases j with
    | array items => exact congrArg array (mapFloatsItems_of_forall ih)
    | object members =>
      exact congrArg object (mapFloatsMembers_of_forall fun m hm => ih m.2 (List.mem_map_of_mem hm))
    | _ => rfl

/-! ## Blanks -/

variable {text rest : List Char} {c : Char} {d level : Nat}

/-- Nothing is skipped before a character that is no white space. -/
theorem skipBlanks_cons (h : isBlank c = false) : skipBlanks (c :: text) = c :: text :=
  dropWhile_of_stops (stops_cons.mpr h)

/-- A line feed and its indent are skipped. -/
theorem skipBlanks_newline : skipBlanks (newline level ++ text) = skipBlanks text := by
  unfold skipBlanks newline
  apply List.dropWhile_append_of_pos
  intro c hc
  rw [List.mem_cons, List.mem_replicate] at hc
  rcases hc with rfl | ⟨-, rfl⟩ <;> rfl

/-- A comma is not skipped. -/
theorem skipBlanks_comma : skipBlanks (',' :: text) = ',' :: text :=
  rfl

/-- White space is skipped once. -/
theorem skipBlanks_skipBlanks : skipBlanks (skipBlanks text) = skipBlanks text := by
  induction text with
  | nil => rfl
  | cons c text ih =>
    cases hc : isBlank c with
    | true =>
      have hskip : skipBlanks (c :: text) = skipBlanks text := by
        simp [skipBlanks, hc]
      rw [hskip, ih]
    | false => rw [skipBlanks_cons hc, skipBlanks_cons hc]

/-- White space is skipped in the same way with more behind, as long as something else follows it. -/
theorem skipBlanks_append (h : skipBlanks text ≠ []) :
    skipBlanks (text ++ rest) = skipBlanks text ++ rest := by
  unfold skipBlanks at h ⊢
  rw [List.dropWhile_append, if_neg]
  simpa using h

/-- Only brackets are read in a way that depends on the depth. -/
theorem exists_readValue_eq (d : Nat) : ∃ array object, readValue d = readValueWith array object := by
  cases d with
  | zero => exact ⟨_, _, rfl⟩
  | succ d => exact ⟨_, _, rfl⟩

/-- Blanks before a value do not count. -/
theorem readValue_skipBlanks : readValue d (skipBlanks text) = readValue d text := by
  obtain ⟨array, object, hvalue⟩ := exists_readValue_eq d
  simp only [hvalue, readValueWith, skipBlanks_skipBlanks]

/-! ## Numbers -/

/-- Whether a value is a number. -/
def isNumber : Json → Bool
  | integer _ | float _ => true
  | _ => false

/-- A number that is read back from a text of its own. -/
def ReadsAlone (j : Json) : Prop :=
  j.isNumber = true → readValue 0 (j.pretty 0) = .ok (j, [])

/-- A number that is read from a text of its own as the function says. -/
def ReadsAs (g : Double → Double) (j : Json) : Prop :=
  j.isNumber = true → readValue 0 (j.pretty 0) = .ok (j.mapFloats g, [])

/-- A value that is read back as itself is read as if no number had changed. -/
theorem readsAs_id {j : Json} (h : j.ReadsAlone) : j.ReadsAs id := by
  intro hnumber
  rw [mapFloats_id]
  exact h hnumber

/-- What is no number is read back as itself, however numbers are. -/
theorem readsAs_of_not_number {g : Double → Double} {j : Json} (h : j.isNumber = false) : j.ReadsAs g := by
  intro hnumber
  rw [h] at hnumber
  cases hnumber

/-- Changing numbers leaves numbers numbers. -/
theorem isNumber_mapFloats (g : Double → Double) (j : Json) : (j.mapFloats g).isNumber = j.isNumber := by
  cases j <;> rfl

/-- A value that begins with a digit is a number. -/
theorem readValueWith_digit {array object : List Char → Except Fault (Json × List Char)} {cs : List Char}
    (hskip : skipBlanks text = c :: cs) (hc : c.isDigit = true) :
    readValueWith array object text = readNumber false (c :: cs) := by
  unfold readValueWith
  rw [hskip]
  split
  · rename_i heq
    cases heq
  case h_9 =>
    rename_i heq
    obtain ⟨rfl, rfl⟩ := List.cons.inj heq
    rw [if_pos hc]
  all_goals
    rename_i heq
    exact absurd (List.cons.inj heq).1 (ne_of_class hc rfl)

/-- So is one that begins with a minus sign. -/
theorem readValueWith_minus {array object : List Char → Except Fault (Json × List Char)} {cs : List Char}
    (hskip : skipBlanks text = '-' :: cs) : readValueWith array object text = readNumber true cs := by
  unfold readValueWith
  rw [hskip]
  rfl

/-- The text of a number begins with a sign or a digit, after any blanks. -/
theorem starts_of_readValue_number {j : Json} {after : List Char} (hj : j.isNumber = true)
    (hread : readValue 0 text = .ok (j, after)) :
    ∃ c cs, skipBlanks text = c :: cs ∧ (c = '-' ∨ c.isDigit = true) := by
  unfold readValue readValueWith at hread
  have hword : ∀ (w t : List Char) (k : Json), k.isNumber = false →
      (do return (k, ← expect w t) : Except Fault (Json × List Char)) ≠ .ok (j, after) := by
    intro w t k hk heq
    cases hexpect : expect w t with
    | error f =>
      rw [hexpect] at heq
      cases heq
    | ok r =>
      rw [hexpect] at heq
      cases heq
      rw [hj] at hk
      cases hk
  split at hread
  · cases hread
  · exact absurd hread (hword _ _ _ rfl)
  · exact absurd hread (hword _ _ _ rfl)
  · exact absurd hread (hword _ _ _ rfl)
  · rename_i t _
    cases hstring : readString t with
    | error f =>
      rw [hstring] at hread
      cases hread
    | ok r =>
      rw [hstring] at hread
      cases hread
      cases hj
  · rename_i t hskip
    exact ⟨'-', t, hskip, .inl rfl⟩
  · cases hread
  · cases hread
  · rename_i c t _ _ _ _ _ _ _ hskip
    split at hread
    · rename_i hc
      exact ⟨c, t, hskip, .inr hc⟩
    · cases hread

/-- A number that is read by itself is read with more behind it, if that cannot run on in a number. -/
theorem readValue_number_append {j : Json} (hj : j.isNumber = true)
    (hread : readValue 0 text = .ok (j, [])) (hrest : Stops runsOnNumber rest) :
    readValue d (text ++ rest) = .ok (j, rest) := by
  obtain ⟨c, cs, hskip, hc⟩ := starts_of_readValue_number hj hread
  have hlonger : skipBlanks (text ++ rest) = c :: (cs ++ rest) := by
    rw [skipBlanks_append (by rw [hskip]; exact List.cons_ne_nil _ _), hskip, List.cons_append]
  obtain ⟨array, object, hvalue⟩ := exists_readValue_eq d
  rcases hc with rfl | hc
  · have hnumber : readNumber true cs = .ok (j, []) := by
      rw [← hread, readValue, readValueWith_minus hskip]
    rw [hvalue, readValueWith_minus hlonger, readNumber_append hrest hnumber, List.nil_append]
  · have hnumber : readNumber false (c :: cs) = .ok (j, []) := by
      rw [← hread, readValue, readValueWith_digit hskip hc]
    have happend := readNumber_append hrest hnumber
    rw [List.cons_append] at happend
    rw [hvalue, readValueWith_digit hlonger hc, happend, List.nil_append]

/-! ## Depth -/

/-- The result when the depth is enough. -/
def within {ε α : Type} (fault : ε) (needed d : Nat) (a : α) : Except ε α :=
  if needed ≤ d then .ok a else .error fault

/-- A step after a result within the depth is a result within the depth. -/
theorem within_map {ε α β : Type} (fault : ε) (n d : Nat) (a : α) (f : α → β) :
    (within fault n d a).map f = within fault n d (f a) := by
  unfold within
  split <;> rfl

/-- A bracket around a result takes one level. -/
theorem within_bracket {ε α β : Type} (fault : ε) (n d : Nat) (a : α) (f : α → β) :
    ((within fault n d a).bind fun x => .ok (f x)) = within fault (n + 1) (d + 1) (f a) := by
  unfold within
  simp only [Nat.add_le_add_iff_right]
  split <;> rfl

/-- Two results in a row need the larger depth of the two. -/
theorem within_bind {ε α β : Type} {fault : ε} {m n d : Nat} {a : α} {b : β} {k : α → Except ε β}
    (hk : k a = within fault n d b) : (within fault m d a).bind k = within fault (max m n) d b := by
  unfold within at hk ⊢
  by_cases hm : m ≤ d
  · rw [if_pos hm]
    show k a = _
    rw [hk]
    by_cases hn : n ≤ d
    · rw [if_pos hn, if_pos (Nat.max_le.mpr ⟨hm, hn⟩)]
    · rw [if_neg hn, if_neg (fun h => hn (Nat.max_le.mp h).2)]
  · rw [if_neg hm, if_neg (fun h => hm (Nat.max_le.mp h).1)]
    rfl

variable {g : Double → Double}

/-- The reader finds the value in its text at a depth that is enough for it, and nothing else goes wrong
before it finds that the depth is too small. -/
def Reads (g : Double → Double) (d level : Nat) (j : Json) : Prop :=
  ∀ rest, Stops runsOnNumber rest →
    readValue d (j.pretty level ++ rest) = within .malformed j.nesting d (j.mapFloats g, rest)

/-! ## Arrays -/

/-- The head of a value's text closes no bracket. -/
theorem exists_skipBlanks_pretty {j : Json} (h : j.ReadsAs g) (level : Nat) (rest : List Char) :
    ∃ c cs, skipBlanks (j.pretty level ++ rest) = c :: cs ∧ c ≠ ']' := by
  cases hnumber : j.isNumber with
  | true =>
    obtain ⟨c, cs, hskip, hc⟩ := starts_of_readValue_number ((isNumber_mapFloats g j).trans hnumber) (h hnumber)
    have hsame : j.pretty level = j.pretty 0 := by
      cases j with
      | integer n => simp only [pretty]
      | float x => simp only [pretty]
      | _ => cases hnumber
    refine ⟨c, cs ++ rest, ?_, ?_⟩
    · rw [hsame, skipBlanks_append (by rw [hskip]; exact List.cons_ne_nil _ _), hskip, List.cons_append]
    · rintro rfl
      rcases hc with hc | hc <;> cases hc
  | false =>
    cases j with
    | integer n => cases hnumber
    | float x => cases hnumber
    | null => exact ⟨'n', _, rfl, by decide⟩
    | bool b => cases b <;> exact ⟨_, _, rfl, by decide⟩
    | string s => exact ⟨'"', _, rfl, by decide⟩
    | array items => cases items <;> exact ⟨'[', _, rfl, by decide⟩
    | object members => cases members <;> exact ⟨'{', _, rfl, by decide⟩

/-- A bracket on a line of its own closes an array. -/
theorem nextItem_close (first : Bool) : nextItem first (newline level ++ ']' :: rest) = .ok (.close rest) := by
  unfold nextItem
  rw [skipBlanks_newline]
  rfl

/-- A first item stands on a line of its own. -/
theorem nextItem_first {cs : List Char} (hskip : skipBlanks text = c :: cs) (hc : c ≠ ']') :
    nextItem true (newline level ++ text) = .ok (.part () (skipBlanks text)) := by
  unfold nextItem
  rw [skipBlanks_newline, hskip]
  split
  · rename_i heq
    cases heq
  · rename_i heq
    exact absurd (List.cons.inj heq).1 hc
  · rename_i heq
    rw [← heq]
    rfl

/-- So does a later one, behind a comma. -/
theorem nextItem_next {cs : List Char} (hskip : skipBlanks text = c :: cs) (hc : c ≠ ']') :
    nextItem false (',' :: (newline level ++ text)) = .ok (.part () (skipBlanks text)) := by
  unfold nextItem
  rw [skipBlanks_comma]
  split
  · rename_i heq
    cases heq
  · rename_i heq
    exact absurd (List.cons.inj heq).1 (by simp)
  · rename_i heq
    obtain ⟨rfl, rfl⟩ := List.cons.inj heq
    rw [if_neg Bool.false_ne_true, if_pos rfl, skipBlanks_newline, hskip]
    -- Behind the comma an item stands, not the end of the array.
    split
    · rename_i hrest
      cases hrest
    · rename_i hrest
      exact absurd (List.cons.inj hrest).1 hc
    · rfl

/-- No number runs on in the rest of an array. -/
theorem stops_prettyItems {js : List Json} :
    Stops runsOnNumber (prettyItems level js ++ (newline d ++ text)) := by
  cases js with
  | nil => exact stops_cons.mpr rfl
  | cons j js => exact stops_cons.mpr rfl

/-- One item is read at its place, and then the others. -/
theorem readItems_step {value : List Char → Except Fault (Json × List Char)} {steps : Nat} {first : Bool}
    {t : List Char} (hnext : nextItem first text = .ok (.part () t)) :
    readItems value (steps + 1) first text =
      (value t).bind fun p => (readItems value steps false p.2).map fun q => (p.1 :: q.1, q.2) := by
  simp only [readItems, hnext, bind, Except.bind]
  cases value t with
  | error f => rfl
  | ok p =>
    simp only
    cases readItems value steps false p.2 <;> rfl

/-- The rest of a written array is read item by item, within the depth. -/
theorem readItems_tail {js : List Json} {outer steps : Nat} (halone : ∀ j ∈ js, j.ReadsAs g)
    (hreads : ∀ j ∈ js, Reads g d level j) (hsteps : js.length < steps) :
    readItems (readValue d) steps false (prettyItems level js ++ (newline outer ++ ']' :: rest)) =
      within .malformed (nestingItems js) d (mapFloatsItems g js, rest) := by
  induction js generalizing steps with
  | nil =>
    obtain ⟨n, rfl⟩ : ∃ n, steps = n + 1 := ⟨steps - 1, by simp at hsteps; omega⟩
    simp only [prettyItems, List.nil_append, readItems, nextItem_close]
    rfl
  | cons j js ih =>
    obtain ⟨n, rfl⟩ : ∃ n, steps = n + 1 := ⟨steps - 1, by omega⟩
    have hlater := ih (fun k hk => halone k (List.mem_cons_of_mem j hk))
      (fun k hk => hreads k (List.mem_cons_of_mem j hk)) (by simpa using hsteps)
    obtain ⟨c, cs, hskip, hc⟩ := exists_skipBlanks_pretty (halone j List.mem_cons_self) level
      (prettyItems level js ++ (newline outer ++ ']' :: rest))
    rw [prettyItems, List.cons_append, List.append_assoc, List.append_assoc,
      readItems_step (nextItem_next hskip hc), readValue_skipBlanks,
      hreads j List.mem_cons_self _ stops_prettyItems]
    apply within_bind
    rw [hlater, within_map, mapFloatsItems]

/-- A written item has at least one character. -/
theorem length_le_prettyItems (level : Nat) (js : List Json) :
    js.length ≤ (prettyItems level js).length := by
  induction js with
  | nil => exact Nat.le_refl _
  | cons j js ih =>
    simp only [prettyItems, List.length_cons, List.length_append]
    omega

/-- A written array is read item by item, within the depth. -/
theorem readItems_pretty {js : List Json} {j : Json} (halone : ∀ k ∈ j :: js, k.ReadsAs g)
    (hreads : ∀ k ∈ j :: js, Reads g d level k) {outer steps : Nat}
    (hsteps : (j :: js).length < steps) :
    readItems (readValue d) steps true (newline level ++ (j.pretty level ++ (prettyItems level js ++
        (newline outer ++ ']' :: rest)))) =
      within .malformed (nestingItems (j :: js)) d (mapFloatsItems g (j :: js), rest) := by
  obtain ⟨n, rfl⟩ : ∃ n, steps = n + 1 := ⟨steps - 1, by omega⟩
  obtain ⟨c, cs, hskip, hc⟩ := exists_skipBlanks_pretty (halone j List.mem_cons_self) level
    (prettyItems level js ++ (newline outer ++ ']' :: rest))
  have hlater : readItems (readValue d) n false (prettyItems level js ++ (newline outer ++ ']' :: rest)) =
      within .malformed (nestingItems js) d (mapFloatsItems g js, rest) := by
    apply readItems_tail
    · exact fun k hk => halone k (List.mem_cons_of_mem j hk)
    · exact fun k hk => hreads k (List.mem_cons_of_mem j hk)
    · simpa using hsteps
  rw [readItems_step (nextItem_first hskip hc), readValue_skipBlanks,
    hreads j List.mem_cons_self _ stops_prettyItems]
  apply within_bind
  rw [hlater, within_map, mapFloatsItems]

/-- A written array is read as itself, with the numbers in it as they are read. -/
theorem reads_array {js : List Json} (halone : ∀ j ∈ js, j.ReadsAs g)
    (hreads : ∀ j ∈ js, ∀ d level, Reads g d level j) (d level : Nat) : Reads g d level (array js) := by
  intro rest _
  cases d with
  | zero => cases js <;> rfl
  | succ d =>
    cases js with
    | nil => rfl
    | cons j js =>
      have htext : (array (j :: js)).pretty level ++ rest = '[' :: (newline (level + 1) ++
          (j.pretty (level + 1) ++ (prettyItems (level + 1) js ++ (newline level ++ ']' :: rest)))) := by
        simp [pretty]
      have hitems : readItems (readValue d) ((newline (level + 1) ++ (j.pretty (level + 1) ++
            (prettyItems (level + 1) js ++ (newline level ++ ']' :: rest)))).length + 1) true
          (newline (level + 1) ++ (j.pretty (level + 1) ++ (prettyItems (level + 1) js ++
            (newline level ++ ']' :: rest)))) =
          within .malformed (nestingItems (j :: js)) d (mapFloatsItems g (j :: js), rest) := by
        apply readItems_pretty halone (fun k hk => hreads k hk d (level + 1))
        have hlength := length_le_prettyItems (level + 1) js
        simp only [newline, List.length_append, List.length_cons]
        omega
      rw [htext]
      show (readItems (readValue d) _ true _).bind _ = _
      rw [hitems]
      exact within_bracket Fault.malformed (nestingItems (j :: js)) d (mapFloatsItems g (j :: js), rest)
        fun p => (array p.1, p.2)

/-! ## Objects -/

/-- A brace on a line of its own closes an object. -/
theorem nextMember_close (first : Bool) :
    nextMember first (newline level ++ '}' :: rest) = .ok (.close rest) := by
  unfold nextMember
  simp only [skipBlanks_newline]
  rfl

/-- A first member stands on a line of its own. -/
theorem nextMember_first (key : String) :
    nextMember true (newline level ++ (stringChars key ++ rest)) = .ok (.part key rest) := by
  have hread := readString_body key rest
  unfold nextMember
  simp only [skipBlanks_newline, stringChars_append]
  show (readString (key.toList.flatMap escape ++ '"' :: rest)).bind _ = _
  rw [hread]
  rfl

/-- So does a later one, behind a comma. -/
theorem nextMember_next (key : String) :
    nextMember false (',' :: (newline level ++ (stringChars key ++ rest))) = .ok (.part key rest) := by
  have hread := readString_body key rest
  have hquote (rest : List Char) : skipBlanks ('"' :: rest) = '"' :: rest := rfl
  unfold nextMember
  rw [skipBlanks_comma]
  split
  · rename_i heq
    cases heq
  · rename_i heq
    exact absurd (List.cons.inj heq).1 (by simp)
  · rename_i heq
    obtain ⟨rfl, rfl⟩ := List.cons.inj heq
    rw [if_neg Bool.false_ne_true, if_pos rfl, skipBlanks_newline, stringChars_append, hquote]
    split
    · rename_i hrest
      cases hrest
    · rename_i hrest
      rw [← (List.cons.inj hrest).2]
      simp only [hread]
      rfl
    · rename_i hother
      exact absurd rfl (hother _)

/-- No number runs on in the rest of an object. -/
theorem stops_prettyMembers {js : List (String × Json)} :
    Stops runsOnNumber (prettyMembers level js ++ (newline d ++ text)) := by
  cases js with
  | nil => exact stops_cons.mpr rfl
  | cons j js => exact stops_cons.mpr rfl

/-- One member is read at its place, and then the others. -/
theorem readMembers_step {value : List Char → Except Fault (Json × List Char)} {steps : Nat} {first : Bool}
    {key : String} {t : List Char} (hnext : nextMember first text = .ok (.part key (':' :: t))) :
    readMembers value (steps + 1) first text =
      (value t).bind fun p =>
        (readMembers value steps false p.2).map fun q => ((key, p.1) :: q.1, q.2) := by
  have hcolon : readColon (':' :: t) = .ok t := rfl
  simp only [readMembers, hnext, hcolon, bind, Except.bind]
  cases value t with
  | error f => rfl
  | ok p =>
    simp only
    cases readMembers value steps false p.2 <;> rfl

/-- A blank before a value is skipped. -/
theorem readValue_space : readValue d (' ' :: text) = readValue d text := by
  obtain ⟨array, object, hvalue⟩ := exists_readValue_eq d
  rw [hvalue]
  rfl

/-- The rest of a written object is read member by member, within the depth. -/
theorem readMembers_tail {js : List (String × Json)} {outer steps : Nat}
    (hreads : ∀ m ∈ js, Reads g d level m.2) (hsteps : js.length < steps) :
    readMembers (readValue d) steps false (prettyMembers level js ++ (newline outer ++ '}' :: rest)) =
      within .malformed (nestingMembers js) d (mapFloatsMembers g js, rest) := by
  induction js generalizing steps with
  | nil =>
    obtain ⟨n, rfl⟩ : ∃ n, steps = n + 1 := ⟨steps - 1, by simp at hsteps; omega⟩
    simp only [prettyMembers, List.nil_append, readMembers, nextMember_close]
    rfl
  | cons m js ih =>
    obtain ⟨key, j⟩ := m
    obtain ⟨n, rfl⟩ : ∃ n, steps = n + 1 := ⟨steps - 1, by omega⟩
    have hlater := ih (fun k hk => hreads k (List.mem_cons_of_mem _ hk)) (by simpa using hsteps)
    have htext : prettyMembers level ((key, j) :: js) ++ (newline outer ++ '}' :: rest) =
        ',' :: (newline level ++ (stringChars key ++ ':' :: ' ' :: (j.pretty level ++
          (prettyMembers level js ++ (newline outer ++ '}' :: rest))))) := by
      simp [prettyMembers]
    rw [htext, readMembers_step (nextMember_next key), readValue_space,
      hreads (key, j) List.mem_cons_self _ stops_prettyMembers]
    apply within_bind
    rw [hlater, within_map, mapFloatsMembers]

/-- A written member has at least one character. -/
theorem length_le_prettyMembers (level : Nat) (js : List (String × Json)) :
    js.length ≤ (prettyMembers level js).length := by
  induction js with
  | nil => exact Nat.le_refl _
  | cons m js ih =>
    simp only [prettyMembers, List.length_cons, List.length_append]
    omega

/-- A written object is read as itself, with the numbers in it as they are read. -/
theorem reads_object {js : List (String × Json)} (hreads : ∀ m ∈ js, ∀ d level, Reads g d level m.2)
    (d level : Nat) : Reads g d level (object js) := by
  intro rest _
  cases d with
  | zero => cases js <;> rfl
  | succ d =>
    cases js with
    | nil => rfl
    | cons m js =>
      obtain ⟨key, j⟩ := m
      have htext : (object ((key, j) :: js)).pretty level ++ rest = '{' :: (newline (level + 1) ++
          (stringChars key ++ ':' :: ' ' :: (j.pretty (level + 1) ++ (prettyMembers (level + 1) js ++
            (newline level ++ '}' :: rest))))) := by
        simp [pretty]
      generalize hinner : newline (level + 1) ++ (stringChars key ++ ':' :: ' ' ::
        (j.pretty (level + 1) ++ (prettyMembers (level + 1) js ++ (newline level ++ '}' :: rest)))) =
        inner at htext
      have hmembers : readMembers (readValue d) (inner.length + 1) true inner =
          within .malformed (nestingMembers ((key, j) :: js)) d (mapFloatsMembers g ((key, j) :: js), rest) := by
        have hlater : readMembers (readValue d) inner.length false (prettyMembers (level + 1) js ++
            (newline level ++ '}' :: rest)) =
          within .malformed (nestingMembers js) d (mapFloatsMembers g js, rest) := by
          apply readMembers_tail
          · exact fun k hk => hreads k (List.mem_cons_of_mem _ hk) d (level + 1)
          · have hlength := length_le_prettyMembers (level + 1) js
            rw [← hinner]
            simp only [newline, List.length_append, List.length_cons]
            omega
        rw [readMembers_step (hinner ▸ nextMember_first key), readValue_space,
          hreads (key, j) List.mem_cons_self d (level + 1) _ stops_prettyMembers]
        apply within_bind
        rw [hlater, within_map, mapFloatsMembers]
      rw [htext]
      show (readMembers (readValue d) _ true _).bind _ = _
      rw [hmembers]
      exact within_bracket Fault.malformed _ d (mapFloatsMembers g ((key, j) :: js), rest) fun p => (object p.1, p.2)

/-! ## Values -/

/-- Written text is read back as the value it was written for, with the numbers that come back, at every depth that its
brackets need, and is malformed at every smaller one. -/
theorem readValue_pretty_as {j : Json} (h : j.All (ReadsAs g)) (d level : Nat) : Reads g d level j := by
  induction j using partInduction generalizing d level with
  | value j ih =>
    have hbelow : ∀ c ∈ j.parts, ∀ d level, Reads g d level c := by
      intro c hc d level
      exact ih c hc (h.part c hc) d level
    have halone : ∀ c ∈ j.parts, c.ReadsAs g := by
      intro c hc
      exact (h.part c hc).root
    have hnumber : j.isNumber = true → j.pretty level = j.pretty 0 → j.nesting = 0 →
        Reads g d level j := by
      intro hj hsame hnone rest hrest
      rw [hsame, readValue_number_append ((isNumber_mapFloats g j).trans hj) (h.root hj) hrest, hnone]
      rfl
    cases j with
    | null =>
      intro rest _
      cases d <;> rfl
    | bool b =>
      intro rest _
      cases b <;> cases d <;> rfl
    | integer n => exact hnumber rfl rfl rfl
    | float x => exact hnumber rfl rfl rfl
    | string s =>
      intro rest _
      have hread := readString_body s rest
      obtain ⟨array, object, hvalue⟩ := exists_readValue_eq d
      rw [pretty, stringChars_append, hvalue]
      show (readString _).bind _ = _
      rw [hread]
      rfl
    | array js => exact reads_array halone hbelow d level
    | object js =>
      refine reads_object ?_ d level
      intro m hm
      exact hbelow m.2 (List.mem_map_of_mem hm)

/-- A value whose numbers are read back as themselves is read back as itself. -/
theorem readValue_pretty {j : Json} (h : j.All ReadsAlone) (d level : Nat) {rest : List Char}
    (hrest : Stops runsOnNumber rest) :
    readValue d (j.pretty level ++ rest) = within .malformed j.nesting d (j, rest) := by
  have hread := readValue_pretty_as (h.imp fun _ => readsAs_id) d level rest hrest
  rwa [mapFloats_id] at hread

end MetricQuery.Json
