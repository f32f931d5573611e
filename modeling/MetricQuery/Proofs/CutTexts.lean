import Mathlib.Data.List.TakeWhile
import MetricQuery.Proofs.StoredTrees

/-!
# Cut and extended texts

A text that is cut off is always noticed, and as what it is. Wherever the cut falls, the reader comes to the end of the
text before it can find anything else wrong: `load_cutOf_append`. This is because a text is read to its end before its
fields are looked at, and because the kind at the top, which is looked at before, is the one that was written.

Numbers are the one place where a text that is cut off can be complete: `1.5` cut behind the `1` is a number. But then
the bracket around it is not closed, so for a number it is enough that the text runs out, `RunsOut`.
-/

set_option autoImplicit false

namespace MetricQuery

namespace Json

variable {text p : List Char} {level d : Nat}

/-! ## Blanks -/

/-- A line feed and its indent are white space. -/
theorem isBlank_of_mem_newline {c : Char} (h : c ∈ newline level) : isBlank c = true := by
  rw [newline, List.mem_cons, List.mem_replicate] at h
  rcases h with rfl | ⟨-, rfl⟩ <;> rfl

/-- Of a line feed that is cut short nothing is left behind the white space. -/
theorem skipBlanks_cut_newline (h : CutOf p (newline level)) : skipBlanks p = [] :=
  List.dropWhile_eq_nil_iff.mpr fun _ hc => isBlank_of_mem_newline (h.subset hc)

/-- Before the bracket at the end there is nothing but blanks. -/
theorem skipBlanks_cut_close {c : Char} (h : CutOf p (newline level ++ [c])) : skipBlanks p = [] := by
  rcases cutOf_append h with h | ⟨q, rfl, hq⟩
  · exact skipBlanks_cut_newline h
  · rcases cutOf_cons hq with rfl | ⟨r, -, hr⟩
    · rw [skipBlanks_newline]
      rfl
    · exact absurd hr not_cutOf_nil

/-! ## Strings -/

/-- A hexadecimal digit has one byte. -/
theorem utf8Size_digitChar : ∀ n < 16, (Nat.digitChar n).utf8Size = 1 := by
  decide

/-- Fewer than four hexadecimal digits are fewer than four bytes. -/
theorem readHex_cut {n : Nat} (hn : n < 0x20) (h : CutOf p ('0' :: '0' :: hexByte n)) :
    readHex p = .error .truncated := by
  rcases cutOf_cons h with rfl | ⟨q, rfl, hq⟩
  · rfl
  rcases cutOf_cons hq with rfl | ⟨r, rfl, hr⟩
  · rfl
  rcases cutOf_cons hr with rfl | ⟨t, rfl, ht⟩
  · rfl
  rcases cutOf_cons ht with rfl | ⟨u, -, hu⟩
  · have hsize := utf8Size_digitChar (n / 16) (by omega)
    have hzero : '0'.utf8Size = 1 := rfl
    simp [readHex, hsize, hzero]
  · exact absurd hu not_cutOf_nil

/-- A character is written as itself, with a backslash in front, or by its code. -/
theorem escape_cases (c : Char) :
    escape c = [c] ∨ (∃ a, escape c = ['\\', a]) ∨
      c.toNat < 0x20 ∧ escape c = '\\' :: 'u' :: '0' :: '0' :: hexByte c.toNat := by
  unfold escape
  iterate 7
    split
    · exact .inr (.inl ⟨_, rfl⟩)
  split
  · exact .inr (.inr ⟨‹_›, rfl⟩)
  · exact .inl rfl

/-- A cut inside an escape leaves a backslash without what belongs to it. -/
theorem readChars_cut_escape {c : Char} (steps : Nat) (hne : p ≠ []) (h : CutOf p (escape c)) :
    readChars (steps + 1) p = .error .truncated := by
  have hbackslash : ∀ q, readEscape q = .error .truncated →
      readChars (steps + 1) ('\\' :: q) = .error .truncated := by
    intro q hq
    simp only [readChars, hq]
    rfl
  rcases escape_cases c with hc | ⟨a, hc⟩ | ⟨hlt, hc⟩
  all_goals
    rw [hc] at h
    rcases cutOf_cons h with rfl | ⟨q, rfl, hq⟩
    · exact absurd rfl hne
  · exact absurd hq not_cutOf_nil
  · rcases cutOf_cons hq with rfl | ⟨r, -, hr⟩
    · exact hbackslash [] rfl
    · exact absurd hr not_cutOf_nil
  · rcases cutOf_cons hq with rfl | ⟨r, rfl, hr⟩
    · exact hbackslash [] rfl
    · apply hbackslash
      simp only [readEscape, readHex_cut hlt hr]
      rfl

/-- A string that is cut short ends early. -/
theorem readChars_cut {s : List Char} (steps : Nat) (h : CutOf p (s.flatMap escape ++ ['"'])) :
    readChars steps p = .error .truncated := by
  induction s generalizing p steps with
  | nil =>
    rcases cutOf_cons h with rfl | ⟨q, -, hq⟩
    · cases steps <;> rfl
    · exact absurd hq not_cutOf_nil
  | cons c s ih =>
    cases p with
    | nil => cases steps <;> rfl
    | cons a p =>
      cases steps with
      | zero => rfl
      | succ steps =>
        rw [List.flatMap_cons, List.append_assoc] at h
        rcases cutOf_append h with hin | ⟨q, hp, hq⟩
        · exact readChars_cut_escape steps (List.cons_ne_nil a p) hin
        · rw [hp, readChars_escape, ih steps hq]
          rfl

/-- A string that is cut off, behind its opening quote. -/
theorem readString_cut {s : String} (h : CutOf p (s.toList.flatMap escape ++ ['"'])) :
    readString p = .error .truncated := by
  unfold readString
  rw [readChars_cut _ h]
  rfl

/-- A string that is cut off, or that is followed by a text that is cut off. -/
theorem readString_cut_append {s : String} {rest : List Char} (h : CutOf p (s.toList.flatMap escape ++ '"' :: rest)) :
    readString p = .error .truncated ∨ ∃ q, readString p = .ok (s, q) ∧ CutOf q rest := by
  rw [← List.singleton_append, ← List.append_assoc] at h
  rcases cutOf_append h with hin | ⟨q, rfl, hq⟩
  · exact .inl (readString_cut hin)
  · rw [List.append_assoc, List.singleton_append, readString_body]
    exact .inr ⟨q, rfl, hq⟩

/-! ## Parts of brackets -/

variable {g : Double → Double} {j : Json} {rest : List Char}

/-- A number that is cut off is a number or runs out. -/
def CutsAlone (j : Json) : Prop :=
  j.isNumber = true → ∀ d p, CutOf p (j.pretty 0) → RunsOut (readValue d p)

/-- The text of a value is read where it is complete, and runs out where it is not. -/
structure Readable (g : Double → Double) (d level : Nat) (j : Json) : Prop where
  alone : j.ReadsAs g
  reads : Reads g d level j
  fits : j.nesting ≤ d
  cut : ∀ p, CutOf p (j.pretty level) → RunsOut (readValue d p)

/-- The empty text ends before a value. -/
theorem readValue_nil (d : Nat) : readValue d [] = .error .truncated := by
  obtain ⟨array, object, hvalue⟩ := exists_readValue_eq d
  rw [hvalue]
  rfl

/-- What is left behind a value is a text that is cut off, as before. -/
theorem Readable.readValue_cut (h : Readable g d level j) (hstops : Stops runsOnNumber rest) (hrest : rest ≠ [])
    (hp : CutOf p (j.pretty level ++ rest)) :
    readValue d p = .error .truncated ∨ ∃ k t, readValue d p = .ok (k, t) ∧ CutOf t rest := by
  rcases cutOf_append hp with hin | ⟨t, rfl, ht⟩
  · refine (h.cut p hin).imp_right ?_
    rintro ⟨k, hk⟩
    obtain ⟨c, cs, rfl⟩ := List.exists_cons_of_ne_nil hrest
    exact ⟨k, [], hk, c, cs, rfl⟩
  · right
    rw [h.reads t (hstops.cut ht), within, if_pos h.fits]
    exact ⟨_, t, rfl, ht⟩

/-! ## Arrays -/

/-- White space ends before the next item. -/
theorem nextItem_of_blank (first : Bool) (h : skipBlanks text = []) : nextItem first text = .error .truncated := by
  unfold nextItem
  rw [h]

/-- So it does behind a comma. -/
theorem nextItem_comma_of_blank (h : skipBlanks text = []) : nextItem false (',' :: text) = .error .truncated := by
  unfold nextItem
  simp [skipBlanks_comma, h]

/-- Items cannot be read where the next one is not found. -/
theorem readItems_of_error {value : List Char → Except Fault (Json × List Char)} {steps : Nat} {first : Bool}
    {f : Fault} (h : nextItem first text = .error f) : readItems value (steps + 1) first text = .error f := by
  simp only [readItems, h]
  rfl

/-- What begins a text begins it also when it is cut off, unless there are only blanks left. -/
theorem exists_skipBlanks_cut {c : Char} {cs : List Char} (h : skipBlanks text = c :: cs) (hp : CutOf p text) :
    skipBlanks p = [] ∨ ∃ ds, skipBlanks p = c :: ds := by
  obtain ⟨b, after, rfl⟩ := hp
  by_cases hblank : skipBlanks p = []
  · exact .inl hblank
  · rw [skipBlanks_append hblank] at h
    obtain ⟨a, ds, hds⟩ := List.exists_cons_of_ne_nil hblank
    rw [hds] at h
    exact .inr ⟨ds, by rw [hds, (List.cons.inj h).1]⟩

section Items

variable {outer : Nat}

/-- One item and what follows it. -/
theorem readItems_cut_step {steps : Nat} {first : Bool} (hj : Readable g d level j) (hstops : Stops runsOnNumber rest)
    (hrest : rest ≠ []) (hp : CutOf p (j.pretty level ++ rest))
    (hlater : ∀ t, CutOf t rest → readItems (readValue d) steps false t = .error .truncated)
    (hblank : skipBlanks p = [] → nextItem first text = .error .truncated)
    (hnext : ∀ {c cs}, skipBlanks p = c :: cs → c ≠ ']' → nextItem first text = .ok (.part () (skipBlanks p))) :
    readItems (readValue d) (steps + 1) first text = .error .truncated := by
  obtain ⟨c, cs, hskip, hc⟩ := exists_skipBlanks_pretty hj.alone level rest
  rcases exists_skipBlanks_cut hskip hp with hnil | ⟨ds, hds⟩
  · exact readItems_of_error (hblank hnil)
  · rw [readItems_step (hnext hds hc), readValue_skipBlanks]
    rcases hj.readValue_cut hstops hrest hp with hcut | ⟨k, t, hread, ht⟩
    · rw [hcut]
      rfl
    · rw [hread]
      show (readItems (readValue d) steps false t).map _ = _
      rw [hlater t ht]
      rfl

/-- The rest of an array has at least its bracket. -/
theorem prettyItems_close_ne_nil (level outer : Nat) (js : List Json) :
    prettyItems level js ++ (newline outer ++ [']']) ≠ [] :=
  List.append_ne_nil_of_right_ne_nil _ (List.append_ne_nil_of_right_ne_nil _ (List.cons_ne_nil _ _))

/-- The rest of an array that is cut short ends early. -/
theorem readItems_cut {js : List Json} (steps : Nat) (hjs : ∀ j ∈ js, Readable g d level j)
    (hp : CutOf p (prettyItems level js ++ (newline outer ++ [']']))) :
    readItems (readValue d) steps false p = .error .truncated := by
  induction js generalizing p steps with
  | nil =>
    cases steps with
    | zero => rfl
    | succ steps => exact readItems_of_error (nextItem_of_blank false (skipBlanks_cut_close hp))
  | cons j js ih =>
    cases steps with
    | zero => rfl
    | succ steps =>
      rw [prettyItems, List.cons_append, List.append_assoc, List.append_assoc] at hp
      rcases cutOf_cons hp with rfl | ⟨q, rfl, hq⟩
      · exact readItems_of_error (nextItem_of_blank false rfl)
      rcases cutOf_append hq with hblank | ⟨r, rfl, hr⟩
      · exact readItems_of_error (nextItem_comma_of_blank (skipBlanks_cut_newline hblank))
      refine readItems_cut_step (hjs j List.mem_cons_self) stops_prettyItems
        (prettyItems_close_ne_nil level outer js) hr
        (fun t ht => ih steps (fun k hk => hjs k (List.mem_cons_of_mem j hk)) ht) (fun hnil => ?_) nextItem_next
      apply nextItem_comma_of_blank
      rw [skipBlanks_newline, hnil]

/-- An array that is cut short ends early. -/
theorem readValue_array_cut {js : List Json} (hjs : ∀ j ∈ js, Readable g d (level + 1) j)
    (hp : CutOf p ((array js).pretty level)) : readValue (d + 1) p = .error .truncated := by
  have hitems : ∀ q, readItems (readValue d) (q.length + 1) true q = .error .truncated →
      readValue (d + 1) ('[' :: q) = .error .truncated := by
    intro q hq
    show (readItems (readValue d) (q.length + 1) true q).bind _ = _
    rw [hq]
    rfl
  cases js with
  | nil =>
    rw [pretty] at hp
    rcases cutOf_cons hp with rfl | ⟨q, rfl, hq⟩
    · rfl
    · rcases cutOf_cons hq with rfl | ⟨r, -, hr⟩
      · rfl
      · exact absurd hr not_cutOf_nil
  | cons j js =>
    have htext : (array (j :: js)).pretty level = '[' :: (newline (level + 1) ++ (j.pretty (level + 1) ++
        (prettyItems (level + 1) js ++ (newline level ++ [']'])))) := by
      simp [pretty]
    rw [htext] at hp
    rcases cutOf_cons hp with rfl | ⟨q, rfl, hq⟩
    · rfl
    apply hitems
    rcases cutOf_append hq with hblank | ⟨r, rfl, hr⟩
    · exact readItems_of_error (nextItem_of_blank true (skipBlanks_cut_newline hblank))
    refine readItems_cut_step (hjs j List.mem_cons_self) stops_prettyItems (prettyItems_close_ne_nil _ level js) hr
      (fun t ht => readItems_cut _ (fun k hk => hjs k (List.mem_cons_of_mem j hk)) ht) (fun hnil => ?_) nextItem_first
    apply nextItem_of_blank
    rw [skipBlanks_newline, hnil]

end Items

/-! ## Objects -/

section Members

variable {outer : Nat} {key : String}

/-- White space ends before the next member. -/
theorem nextMember_of_blank (first : Bool) (h : skipBlanks text = []) : nextMember first text = .error .truncated := by
  unfold nextMember
  rw [h]

/-- The first key, or what comes behind it. -/
theorem nextMember_first_cut (hp : CutOf p (newline level ++ (stringChars key ++ rest))) :
    nextMember true p = .error .truncated ∨ ∃ q, nextMember true p = .ok (.part key q) ∧ CutOf q rest := by
  rcases cutOf_append hp with hblank | ⟨q, rfl, hq⟩
  · exact .inl (nextMember_of_blank true (skipBlanks_cut_newline hblank))
  rw [stringChars_append] at hq
  rcases cutOf_cons hq with rfl | ⟨r, rfl, hr⟩
  · left
    apply nextMember_of_blank
    rw [skipBlanks_newline]
    rfl
  have hnext : nextMember true (newline level ++ '"' :: r) = (readString r).bind fun s => .ok (.part s.1 s.2) := by
    unfold nextMember
    rw [skipBlanks_newline]
    rfl
  rw [hnext]
  rcases readString_cut_append hr with hcut | ⟨t, hread, ht⟩
  · left
    rw [hcut]
    rfl
  · right
    rw [hread]
    exact ⟨t, rfl, ht⟩

/-- The next key, or what comes behind it. -/
theorem nextMember_next_cut (hp : CutOf p (',' :: (newline level ++ (stringChars key ++ rest)))) :
    nextMember false p = .error .truncated ∨ ∃ q, nextMember false p = .ok (.part key q) ∧ CutOf q rest := by
  rcases cutOf_cons hp with rfl | ⟨q, rfl, hq⟩
  · exact .inl (nextMember_of_blank false rfl)
  -- Behind the comma it goes on as at the first key.
  have hcomma : skipBlanks q = [] ∨ (∃ r, skipBlanks q = '"' :: r) →
      nextMember false (',' :: q) = nextMember true q := by
    intro hstart
    unfold nextMember
    rw [skipBlanks_comma]
    rcases hstart with hnil | ⟨r, hr⟩
    · simp [hnil]
    · simp [hr]
  have hskip : skipBlanks (newline level ++ (stringChars key ++ rest)) =
      '"' :: (key.toList.flatMap escape ++ '"' :: rest) := by
    rw [skipBlanks_newline, stringChars_append]
    rfl
  rw [hcomma (exists_skipBlanks_cut hskip hq)]
  exact nextMember_first_cut hq

/-- The colon and the value behind a key. -/
theorem Readable.readColon_cut (h : Readable g d level j) (hstops : Stops runsOnNumber rest) (hrest : rest ≠ [])
    (hp : CutOf p (':' :: ' ' :: (j.pretty level ++ rest))) :
    readColon p = .error .truncated ∨ ∃ q, readColon p = .ok q ∧
      (readValue d q = .error .truncated ∨ ∃ k t, readValue d q = .ok (k, t) ∧ CutOf t rest) := by
  rcases cutOf_cons hp with rfl | ⟨q, rfl, hq⟩
  · exact .inl rfl
  refine .inr ⟨q, rfl, ?_⟩
  rcases cutOf_cons hq with rfl | ⟨r, rfl, hr⟩
  · exact .inl (readValue_nil d)
  · rw [readValue_space]
    exact h.readValue_cut hstops hrest hr

/-- One member and what follows it. -/
theorem readMembers_cut_step {steps : Nat} {first : Bool} (hj : Readable g d level j) (hstops : Stops runsOnNumber rest)
    (hrest : rest ≠ [])
    (hlater : ∀ t, CutOf t rest → readMembers (readValue d) steps false t = .error .truncated)
    (hnext : nextMember first p = .error .truncated ∨
      ∃ q, nextMember first p = .ok (.part key q) ∧ CutOf q (':' :: ' ' :: (j.pretty level ++ rest))) :
    readMembers (readValue d) (steps + 1) first p = .error .truncated := by
  rcases hnext with hcut | ⟨q, hkey, hq⟩
  · simp only [readMembers, hcut]
    rfl
  rcases hj.readColon_cut hstops hrest hq with hcut | ⟨r, hcolon, hcut | ⟨k, t, hread, ht⟩⟩
  · simp only [readMembers, hkey, hcut, bind, Except.bind]
  · simp only [readMembers, hkey, hcolon, hcut, bind, Except.bind]
  · simp only [readMembers, hkey, hcolon, hread, hlater t ht, bind, Except.bind]

/-- The rest of an object has at least its brace. -/
theorem prettyMembers_close_ne_nil (level outer : Nat) (ms : List (String × Json)) :
    prettyMembers level ms ++ (newline outer ++ ['}']) ≠ [] :=
  List.append_ne_nil_of_right_ne_nil _ (List.append_ne_nil_of_right_ne_nil _ (List.cons_ne_nil _ _))

/-- Members behind the first are written with a comma and a line feed in front. -/
theorem prettyMembers_cons_append (level : Nat) (key : String) (j : Json) (ms : List (String × Json))
    (rest : List Char) :
    prettyMembers level ((key, j) :: ms) ++ rest = ',' :: (newline level ++ (stringChars key ++
      ':' :: ' ' :: (j.pretty level ++ (prettyMembers level ms ++ rest)))) := by
  simp [prettyMembers]

/-- The rest of an object that is cut short ends early. -/
theorem readMembers_cut {ms : List (String × Json)} (steps : Nat) (hms : ∀ m ∈ ms, Readable g d level m.2)
    (hp : CutOf p (prettyMembers level ms ++ (newline outer ++ ['}']))) :
    readMembers (readValue d) steps false p = .error .truncated := by
  induction ms generalizing p steps with
  | nil =>
    cases steps with
    | zero => rfl
    | succ steps =>
      simp only [readMembers, nextMember_of_blank false (skipBlanks_cut_close hp)]
      rfl
  | cons m ms ih =>
    obtain ⟨key, j⟩ := m
    cases steps with
    | zero => rfl
    | succ steps =>
      rw [prettyMembers_cons_append] at hp
      exact readMembers_cut_step (hms (key, j) List.mem_cons_self) stops_prettyMembers
        (prettyMembers_close_ne_nil level outer ms)
        (fun t ht => ih steps (fun m hm => hms m (List.mem_cons_of_mem _ hm)) ht) (nextMember_next_cut hp)

/-- An object that is cut short ends early. -/
theorem readValue_object_cut {ms : List (String × Json)} (hms : ∀ m ∈ ms, Readable g d (level + 1) m.2)
    (hp : CutOf p ((object ms).pretty level)) : readValue (d + 1) p = .error .truncated := by
  have hmembers : ∀ q, readMembers (readValue d) (q.length + 1) true q = .error .truncated →
      readValue (d + 1) ('{' :: q) = .error .truncated := by
    intro q hq
    show (readMembers (readValue d) (q.length + 1) true q).bind _ = _
    rw [hq]
    rfl
  cases ms with
  | nil =>
    rw [pretty] at hp
    rcases cutOf_cons hp with rfl | ⟨q, rfl, hq⟩
    · rfl
    · rcases cutOf_cons hq with rfl | ⟨r, -, hr⟩
      · rfl
      · exact absurd hr not_cutOf_nil
  | cons m ms =>
    obtain ⟨key, j⟩ := m
    have htext : (object ((key, j) :: ms)).pretty level = '{' :: (newline (level + 1) ++ (stringChars key ++
        ':' :: ' ' :: (j.pretty (level + 1) ++ (prettyMembers (level + 1) ms ++ (newline level ++ ['}']))))) := by
      simp [pretty]
    rw [htext] at hp
    rcases cutOf_cons hp with rfl | ⟨q, rfl, hq⟩
    · rfl
    apply hmembers
    exact readMembers_cut_step (hms (key, j) List.mem_cons_self) stops_prettyMembers
      (prettyMembers_close_ne_nil _ level ms)
      (fun t ht => readMembers_cut _ (fun m hm => hms m (List.mem_cons_of_mem _ hm)) ht) (nextMember_first_cut hq)

end Members

/-! ## Values -/

/-- A word that is cut short ends early. -/
theorem expect_cut {word : List Char} (h : CutOf p word) : expect word p = .error .truncated := by
  induction word generalizing p with
  | nil => exact absurd h not_cutOf_nil
  | cons w word ih =>
    rcases cutOf_cons h with rfl | ⟨q, rfl, hq⟩
    · rfl
    · rw [expect, if_pos rfl, ih hq]

/-- So does a value that is such a word. -/
theorem readValue_word_cut {c : Char} {word : List Char} {k : Json}
    (hword : ∀ d q, readValue d (c :: q) = (expect word q).bind fun r => .ok (k, r)) (d : Nat)
    (hp : CutOf p (c :: word)) : readValue d p = .error .truncated := by
  rcases cutOf_cons hp with rfl | ⟨q, rfl, hq⟩
  · exact readValue_nil d
  · rw [hword, expect_cut hq]
    rfl

/-- A text that is cut short ends early. -/
theorem readValue_string_cut {s : String} (d : Nat) (hp : CutOf p (stringChars s)) :
    readValue d p = .error .truncated := by
  rcases cutOf_cons hp with rfl | ⟨q, rfl, hq⟩
  · exact readValue_nil d
  · obtain ⟨array, object, hvalue⟩ := exists_readValue_eq d
    rw [hvalue]
    show (readString q).bind _ = _
    rw [readString_cut hq]
    rfl

/-- Written text is read where it is complete, and runs out where it is not, at every depth that its brackets need. -/
theorem readable_pretty (hreads : j.All (ReadsAs g)) (hcut : j.All CutsAlone) (hfits : j.nesting ≤ d) :
    Readable g d level j := by
  refine ⟨hreads.root, readValue_pretty_as hreads d level, hfits, ?_⟩
  induction j using partInduction generalizing d level with
  | value j ih =>
    intro p hp
    -- A bracket has used up one of the depth that its nesting leaves.
    have hparts : ∀ e, d = e + 1 → ∀ c ∈ j.parts, Readable g e (level + 1) c := by
      rintro e rfl c hc
      have hnesting := nesting_lt_of_mem_parts hc
      have hc' := hreads.part c hc
      exact ⟨hc'.root, readValue_pretty_as hc' e (level + 1), by omega,
        ih c hc hc' (hcut.part c hc) (by omega)⟩
    cases j with
    | null => exact .inl (readValue_word_cut (fun d q => by cases d <;> rfl) d hp)
    | bool b =>
      cases b with
      | true => exact .inl (readValue_word_cut (fun d q => by cases d <;> rfl) d hp)
      | false => exact .inl (readValue_word_cut (fun d q => by cases d <;> rfl) d hp)
    | integer n => exact hcut.root rfl d p hp
    | float x => exact hcut.root rfl d p hp
    | string s => exact .inl (readValue_string_cut d hp)
    | array js =>
      obtain ⟨e, rfl⟩ : ∃ e, d = e + 1 := ⟨d - 1, by rw [nesting] at hfits; omega⟩
      exact .inl (readValue_array_cut (hparts e rfl) hp)
    | object ms =>
      obtain ⟨e, rfl⟩ : ∃ e, d = e + 1 := ⟨d - 1, by rw [nesting] at hfits; omega⟩
      exact .inl (readValue_object_cut (fun m hm => hparts e rfl m.2 (List.mem_map_of_mem hm)) hp)

end Json

/-! ## The object at the top -/

namespace Load

open Json (CutsAlone Readable nextMember readColon readValue newline prettyMembers stringChars runsOnNumber)
open ReadFault (ofJson ofData)

variable {p rest : List Char} {kind : Kind} {g : Double → Double} {outer : Nat}

/-- The name of the kind, or what comes behind it. -/
theorem name_cut {α : Type} [Vocabulary α] [LawfulVocabulary α] {a : α}
    (hp : CutOf p (' ' :: (stringChars (Vocabulary.name a) ++ rest))) :
    name α p = .error (.json .truncated) ∨ ∃ q, name α p = .ok (a, q) ∧ CutOf q rest := by
  rcases cutOf_cons hp with rfl | ⟨q, rfl, hq⟩
  · exact .inl rfl
  rw [Json.stringChars_append] at hq
  rcases cutOf_cons hq with rfl | ⟨r, rfl, hr⟩
  · exact .inl rfl
  show quotedName α r = _ ∨ ∃ q, quotedName α r = _ ∧ _
  unfold quotedName
  rcases Json.readString_cut_append hr with hcut | ⟨t, hread, ht⟩
  · left
    rw [hcut]
    rfl
  · right
    refine ⟨t, ?_, ht⟩
    rw [hread]
    show (ofData (Decode.named α (Vocabulary.name a))).bind _ = _
    rw [Decode.named_name]
    rfl

/-- The members of a tagged node that are cut short end early. -/
theorem members_cut {ms : List (String × Json)} (steps : Nat) (hkeys : ∀ m ∈ ms, m.1 ≠ "type")
    (hms : ∀ m ∈ ms, Readable g innerDepth 1 m.2) (hp : CutOf p (prettyMembers 1 ms ++ (newline outer ++ ['}']))) :
    members steps false (some kind) p = .error (.json .truncated) := by
  induction ms generalizing p steps with
  | nil =>
    cases steps with
    | zero => rfl
    | succ steps =>
      simp only [members, Json.nextMember_of_blank false (Json.skipBlanks_cut_close hp)]
      rfl
  | cons m ms ih =>
    obtain ⟨key, j⟩ := m
    cases steps with
    | zero => rfl
    | succ steps =>
      have hkey : key ≠ "type" := hkeys (key, j) List.mem_cons_self
      have hlater : ∀ t, CutOf t (prettyMembers 1 ms ++ (newline outer ++ ['}'])) →
          members steps false (some kind) t = .error (.json .truncated) := fun t ht =>
        ih steps (fun m hm => hkeys m (List.mem_cons_of_mem _ hm)) (fun m hm => hms m (List.mem_cons_of_mem _ hm)) ht
      rw [Json.prettyMembers_cons_append] at hp
      rcases Json.nextMember_next_cut hp with hcut | ⟨q, hnext, hq⟩
      · simp only [members, hcut]
        rfl
      rcases (hms (key, j) List.mem_cons_self).readColon_cut Json.stops_prettyMembers
          (Json.prettyMembers_close_ne_nil 1 outer ms) hq with hcut | ⟨r, hcolon, hcut | ⟨k, t, hread, ht⟩⟩
      · simp only [members, hnext, hcut, ofJson, bind, Except.bind, if_neg hkey]
      · simp only [members, hnext, hcolon, hcut, ofJson, bind, Except.bind, if_neg hkey]
      · simp only [members, hnext, hcolon, hread, hlater t ht, ofJson, bind, Except.bind, if_neg hkey]

end Load

namespace Expr

open ReadFault (ofJson ofData)

/-- In an encoded expression every value that is cut short by itself ends early. -/
theorem all_cutsAlone_encode (e : Expr) : e.encode.All Json.CutsAlone :=
  all_encode (fun _ hj hnumber => absurd (hj.symm.trans hnumber) Bool.false_ne_true)
    (fun _ hfinite _ d _ hp => Double.runsOut_floatChars hfinite d hp) e

/-- The text of a tree that is cut off ends too early, wherever the cut is. -/
theorem tagged_cutOf {e : Expr} {p : List Char} (hfits : e.encode.nesting ≤ Json.nestingLimit)
    (hp : CutOf p e.encode.write) : Load.tagged p = .error (.json .truncated) := by
  have hfields : ∀ m ∈ e.fields, Json.Readable Double.restored Load.innerDepth 1 m.2 := by
    intro m hm
    have hreads := e.all_readsAs_encode
    have hcuts := e.all_cutsAlone_encode
    rw [encode_eq] at hreads hcuts
    have hmem : m.2 ∈ (Json.object (("type", encodeName e.kind) :: e.fields)).parts :=
      List.mem_map_of_mem (List.mem_cons_of_mem _ hm)
    have hnesting := Json.nesting_lt_of_mem_parts hmem
    rw [← encode_eq] at hnesting
    have hlimit : Json.nestingLimit = Load.innerDepth + 1 := rfl
    exact Json.readable_pretty (hreads.part _ hmem) (hcuts.part _ hmem) (by omega)
  have htext := e.write_append []
  rw [List.append_nil] at htext
  rw [htext] at hp
  rcases cutOf_cons hp with rfl | ⟨q, rfl, hq⟩
  · rfl
  -- The kind is the first member, and it is looked at while the others have not been read.
  have hmembers : Load.members (q.length + 1) true none q = .error (.json .truncated) := by
    rcases Json.nextMember_first_cut hq with hcut | ⟨r, hnext, hr⟩
    · simp only [Load.members, hcut]
      rfl
    rcases cutOf_cons hr with rfl | ⟨t, rfl, ht⟩
    · simp only [Load.members, hnext]
      rfl
    have hcolon : Json.readColon (':' :: t) = .ok t := rfl
    rcases Load.name_cut ht with hcut | ⟨u, hname, hu⟩
    · simp only [Load.members, hnext, hcolon, hcut, ReadFault.ofJson, bind, Except.bind, if_true]
    · simp only [Load.members, hnext, hcolon, hname, ReadFault.ofJson, bind, Except.bind, if_true]
      exact Load.members_cut q.length e.ne_type_of_mem_fields hfields hu
  show (Load.members (q.length + 1) true none q).bind _ = _
  rw [hmembers]
  rfl

/-! ## What follows a text -/

/-- Behind a value there may only be white space. -/
theorem finish_eq (s : List Char) : Json.finish s = if s.all Json.isBlank then .ok () else .error .malformed := by
  unfold Json.finish
  by_cases hall : s.all Json.isBlank = true
  · have hnil : Json.skipBlanks s = [] := List.dropWhile_eq_nil_iff.mpr (List.all_eq_true.mp hall)
    rw [hnil, if_pos hall]
  · have hne : Json.skipBlanks s ≠ [] := fun hnil => hall (List.all_eq_true.mpr (List.dropWhile_eq_nil_iff.mp hnil))
    obtain ⟨c, cs, hcs⟩ := List.exists_cons_of_ne_nil hne
    rw [hcs, if_neg hall]

/-- A stored tree cannot be cut off or go on unnoticed. Within the nesting that the reader allows, every text that is
cut off, at whatever character, ends too early. And behind a text that gives a tree, blanks change nothing, and
everything else makes the text malformed. -/
theorem load_cutOf_append (e : Expr) :
    (e.encode.nesting ≤ Json.nestingLimit →
      ∀ p, CutOf p e.toJson.toList → load p = .error (.read (.json .truncated))) ∧
    ((∃ f, read e.toJson.toList = .ok f) →
      ∀ s : List Char, load (e.toJson.toList ++ s) =
        if s.all Json.isBlank then load e.toJson.toList else .error (.read (.json .malformed))) := by
  constructor
  · intro hfits p hp
    rw [toJson, String.toList_ofList] at hp
    rw [load, read, tagged_cutOf hfits hp]
    rfl
  · rintro ⟨f, hf⟩ s
    -- The text has been read to its end and decoded before what follows it is looked at.
    have hread : ∀ rest, read (e.toJson.toList ++ rest) = ofJson (Json.finish rest) >>= fun _ => .ok f := by
      rw [← List.append_nil e.toJson.toList, read_toJson_append] at hf
      intro rest
      rw [read_toJson_append]
      split_ifs at hf ⊢ with hdepth
      cases hfinite : finiteOnly e.allFinite e.restored with
      | error fault => simp [hfinite, ofData, bind, Except.bind] at hf
      | ok g =>
        simp only [hfinite, ofData, bind, Except.bind, Json.finish] at hf ⊢
        cases hf
        rfl
    have hwhole := hread []
    rw [List.append_nil] at hwhole
    rw [load, load, hread s, hwhole, finish_eq]
    split_ifs <;> rfl

/-- The number `0` that is left of `0.5` is complete, but the object around it is not. -/
theorem load_half_cut_or_extended :
    load "\x7b\n  \"type\": \"numberLiteralExpr\",\n  \"value\": 0".toList = .error (.read (.json .truncated)) ∧
    load ((number (.ofRatio false 1 2)).toJson.toList ++ ['\n']) = .ok (number (.ofRatio false 1 2)) ∧
    load ((number (.ofRatio false 1 2)).toJson.toList ++ ['}']) = .error (.read (.json .malformed)) := by
  have hread : read (number (.ofRatio false 1 2)).toJson.toList = .ok (number (.ofRatio false 1 2)) := by
    have hback : (number (.ofRatio false 1 2)).All NumberReadsBack := .leaf (fun _ => rfl) rfl
    rw [read_toJson hback]
    rfl
  have hcut : CutOf "\x7b\n  \"type\": \"numberLiteralExpr\",\n  \"value\": 0".toList
      (number (.ofRatio false 1 2)).toJson.toList := by
    refine ⟨'.', ['5', '\n', '}'], ?_⟩
    rw [toJson, String.toList_ofList]
    simp only [String.reduceToList]
    decide
  obtain ⟨hcuts, hextended⟩ := load_cutOf_append (number (.ofRatio false 1 2))
  refine ⟨hcuts (by decide) _ hcut, ?_, hextended ⟨_, hread⟩ ['}']⟩
  rw [hextended ⟨_, hread⟩ ['\n'], load, hread]
  rfl

end Expr

end MetricQuery
