import MetricQuery.Expr.Render
import MetricQuery.Proofs.QueryReader
import MetricQuery.Proofs.Scanning

/-!
# Words and lists of query text

What the reader of queries makes of the smallest parts that the writer puts together: blanks, names and
lists. Every lemma speaks of a part with any text behind it, as far as that text does not run on with the
part. `Breaks` is the condition that names and modifiers need. A list is read back when each of its items
is: `readList_intercalate`.
-/

set_option autoImplicit false

namespace MetricQuery.Query

variable {c : Char} {text rest : List Char}

/-! ## Blanks -/

/-- Nothing is skipped of a text without white space before it. -/
theorem skip_of_stops (h : Stops isBlank text) : skip text = text :=
  dropWhile_of_stops h

/-- Nothing is skipped before a character that is no white space. -/
theorem skip_cons_of_not_blank (h : isBlank c = false) : skip (c :: text) = c :: text :=
  skip_of_stops (stops_cons.mpr h)

/-- A blank is skipped. -/
@[simp]
theorem skip_space : skip (' ' :: text) = skip text :=
  rfl

/-- Blanks before a text do not count. -/
theorem skip_append_of_blank {gap : List Char} (h : ∀ c ∈ gap, isBlank c = true) :
    skip (gap ++ text) = skip text :=
  List.dropWhile_append_of_pos h

/-- A character that is expected is read where it stands. -/
theorem expect_cons (h : isBlank c = false) : expect c (c :: rest) = some rest := by
  unfold expect
  rw [skip_cons_of_not_blank h]
  simp

/-- A text in parentheses stands between them. -/
theorem parenthesized_append : parenthesized text ++ rest = '(' :: (text ++ ')' :: rest) := by
  simp [parenthesized]

/-! ## Characters -/

/-- A name may go on as it may start. -/
theorem isNameChar_of_isNameStart (h : isNameStart c = true) : isNameChar c = true := by
  simp only [isNameStart, isNameChar, Char.isAlphanum, Bool.or_eq_true] at h ⊢
  rcases h with (h | h) | h
  · exact .inl (.inl (.inl h))
  · exact .inl (.inr h)
  · exact .inr h

/-- A class without blanks. -/
theorem isBlank_eq_false_of_class {p : Char → Bool} (hc : p c = true) (hspace : p ' ' = false)
    (htab : p '\t' = false) (hline : p '\n' = false) (hreturn : p '\r' = false) : isBlank c = false := by
  simp only [isBlank, Bool.or_eq_false_iff, decide_eq_false_iff_not]
  exact ⟨⟨⟨ne_of_class hc hspace, ne_of_class hc htab⟩, ne_of_class hc hline⟩, ne_of_class hc hreturn⟩

/-- A character that starts a name is no white space. -/
theorem isBlank_eq_false_of_isNameStart (h : isNameStart c = true) : isBlank c = false :=
  isBlank_eq_false_of_class h rfl rfl rfl rfl

/-- A digit is no white space. -/
theorem isBlank_eq_false_of_isDigit (h : c.isDigit = true) : isBlank c = false :=
  isBlank_eq_false_of_class h rfl rfl rfl rfl

/-- A character that starts a name is no digit. -/
theorem isDigit_eq_false_of_isNameStart (h : isNameStart c = true) : c.isDigit = false := by
  cases hdigit : c.isDigit with
  | false => rfl
  | true =>
    unfold isNameStart Char.isAlpha Char.isUpper Char.isLower at h
    unfold Char.isDigit at hdigit
    simp only [Bool.or_eq_true, Bool.and_eq_true, decide_eq_true_eq] at h hdigit
    rcases h with ((h | h) | rfl) | rfl
    · exact absurd (UInt32.le_trans h.1 hdigit.2) (by simp)
    · exact absurd (UInt32.le_trans h.1 hdigit.2) (by simp)
    · exact absurd hdigit.2 (by simp)
    · exact absurd hdigit.2 (by simp)

/-- What may stand right behind a word: the end, a blank, a comma, a closing parenthesis or an opening
bracket; and after blanks nothing that would turn the word into a call or a list of matchers. -/
structure Breaks (rest : List Char) : Prop where
  here : ∀ c ∈ rest.head?, c = ' ' ∨ c = ')' ∨ c = ',' ∨ c = '['
  next : ∀ c ∈ (skip rest).head?, c ≠ '(' ∧ c ≠ '{'

namespace Breaks

/-- What ends a word stops whatever has none of its first characters. -/
theorem stops {p : Char → Bool} (h : Breaks rest) (hblank : p ' ' = false) (hparen : p ')' = false)
    (hcomma : p ',' = false) (hbracket : p '[' = false) : Stops p rest := by
  intro c hc
  rcases h.here c hc with rfl | rfl | rfl | rfl
  · exact hblank
  · exact hparen
  · exact hcomma
  · exact hbracket

/-- What ends a word stops a name. -/
theorem stops_name (h : Breaks rest) : Stops isNameChar rest :=
  h.stops rfl rfl rfl rfl

/-- The end of the text ends a word. -/
theorem nil : Breaks [] :=
  ⟨nofun, nofun⟩

/-- A closing parenthesis, a comma and an opening bracket end a word. -/
theorem cons (hc : c = ')' ∨ c = ',' ∨ c = '[') : Breaks (c :: text) := by
  have hblank : isBlank c = false := by
    rcases hc with rfl | rfl | rfl <;> rfl
  constructor
  · intro d hd
    cases hd
    exact .inr hc
  · intro d hd
    rw [skip_cons_of_not_blank hblank] at hd
    cases hd
    rcases hc with rfl | rfl | rfl <;> decide

/-- A blank with something behind it that opens neither arguments nor matchers. -/
theorem space (hc : isBlank c = false) (hparen : c ≠ '(') (hbrace : c ≠ '{') :
    Breaks (' ' :: c :: text) := by
  constructor
  · intro d hd
    cases hd
    exact .inl rfl
  · intro d hd
    rw [skip_space, skip_cons_of_not_blank hc] at hd
    cases hd
    exact ⟨hparen, hbrace⟩

end Breaks

/-! ## Names -/

/-- The characters of an identifier. -/
theorem exists_cons_of_isIdentifier {name : String} (h : isIdentifier name = true) :
    ∃ c cs, name.toList = c :: cs ∧ isNameStart c = true ∧ ∀ d ∈ name.toList, isNameChar d = true := by
  unfold isIdentifier at h
  split at h
  · cases h
  · rename_i c cs hname
    rw [Bool.and_eq_true, List.all_eq_true] at h
    refine ⟨c, cs, hname, h.1, ?_⟩
    rw [hname, List.forall_mem_cons]
    exact ⟨isNameChar_of_isNameStart h.1, h.2⟩

/-- A name is read as a word up to where it stops. -/
theorem word_append {name : String} (hname : ∀ c ∈ name.toList, isNameChar c = true)
    (h : Stops isNameChar rest) : word (name.toList ++ rest) = name := by
  unfold word
  rw [takeWhile_append_of_stops hname h, String.ofList_toList]

/-- The rest stands behind the word. -/
theorem afterWord_append {name : String} (hname : ∀ c ∈ name.toList, isNameChar c = true)
    (h : Stops isNameChar rest) : afterWord (name.toList ++ rest) = rest :=
  dropWhile_append_of_stops hname h

/-- No white space is skipped before an identifier. -/
theorem skip_identifier_append {name : String} (hname : isIdentifier name = true) :
    skip (name.toList ++ rest) = name.toList ++ rest := by
  obtain ⟨c, cs, hcs, hc, -⟩ := exists_cons_of_isIdentifier hname
  rw [hcs, List.cons_append]
  exact skip_cons_of_not_blank (isBlank_eq_false_of_isNameStart hc)

/-- A label is read up to where it stops. -/
theorem readLabel_append {name : String} (hname : isIdentifier name = true)
    (h : Stops isNameChar rest) : readLabel (name.toList ++ rest) = some (name, rest) := by
  obtain ⟨-, -, -, -, hchars⟩ := exists_cons_of_isIdentifier hname
  unfold readLabel
  rw [skip_identifier_append hname, word_append hchars h, afterWord_append hchars h, if_pos hname]

/-! ## Lists -/

/-- An item of a list as it is written: what stands at its head does not end the list, and the reader of
items finds it before a comma and before the end of the list. The bound on the length is for readers that
refuse long texts. -/
structure ReadsItem {α : Type} (item : Reader α) (close : Char) (bound : Nat) (text : List Char)
    (value : α) : Prop where
  starts : ∃ c cs, text = c :: cs ∧ isBlank c = false ∧ c ≠ close
  read : ∀ rest : List Char, rest.head? = some ',' ∨ rest.head? = some close →
    (text ++ rest).length < bound → item (text ++ rest) = some (value, rest)

section Lists

variable {α β : Type} {item : Reader α} {close : Char} {bound : Nat} {text : β → List Char}
  {value : β → α} {rest : List Char}

/-- No white space is skipped before an item that is read. -/
theorem skip_item {x : β} (h : ReadsItem item close bound (text x) (value x)) (rest : List Char) :
    skip (text x ++ rest) = text x ++ rest := by
  obtain ⟨c, cs, hcs, hblank, -⟩ := h.starts
  rw [hcs, List.cons_append]
  exact skip_cons_of_not_blank hblank

/-- The items of a list are read one by one, whatever blanks stand before them. -/
theorem readItems_intercalate (gap lead : List Char) (hclose : isBlank close = false)
    (hcomma : close ≠ ',') (hgap : ∀ c ∈ gap, isBlank c = true) {xs : List β} {x : β}
    (hlead : ∀ c ∈ lead, isBlank c = true)
    (hitems : ∀ y ∈ x :: xs, ReadsItem item close bound (text y) (value y))
    (hbound : ((',' :: gap).intercalate ((x :: xs).map text) ++ close :: rest).length < bound) :
    readItems item close (lead ++ ((',' :: gap).intercalate ((x :: xs).map text) ++ close :: rest)) =
      some ((x :: xs).map value, rest) := by
  induction xs generalizing x lead with
  | nil =>
    have hx := hitems x List.mem_cons_self
    simp only [List.map_cons, List.map_nil, List.intercalate_singleton] at hbound ⊢
    rw [readItems, skip_append_of_blank hlead, skip_item hx, hx.read _ (.inr rfl) hbound,
      Option.bind_eq_bind, Option.bind_some]
    simp only [skip_cons_of_not_blank hclose, if_true]
  | cons y ys ih =>
    have hx := hitems x List.mem_cons_self
    have hys : ∀ z ∈ y :: ys, ReadsItem item close bound (text z) (value z) := by
      intro z hz
      exact hitems z (List.mem_cons_of_mem x hz)
    simp only [List.map_cons, List.intercalate_cons_cons, List.append_assoc, List.cons_append]
      at hbound ⊢
    have hlength : ((',' :: gap).intercalate ((y :: ys).map text) ++ close :: rest).length < bound := by
      simp only [List.map_cons, List.length_append, List.length_cons] at hbound ⊢
      omega
    rw [readItems, skip_append_of_blank hlead, skip_item hx, hx.read _ (.inl rfl) hbound,
      Option.bind_eq_bind, Option.bind_some]
    simp only [skip_cons_of_not_blank (show isBlank ',' = false from rfl), if_neg hcomma.symm, if_true]
    rw [if_pos (by simp only [List.length_append, List.length_cons]; omega)]
    have hrest := ih gap hgap hys hlength
    rw [List.map_cons] at hrest
    rw [hrest]
    rfl

/-- A list is read up to the character that closes it, and nothing behind that is touched. -/
theorem readList_intercalate (gap : List Char) (hclose : isBlank close = false) (hcomma : close ≠ ',')
    (hgap : ∀ c ∈ gap, isBlank c = true) {xs : List β}
    (hitems : ∀ y ∈ xs, ReadsItem item close bound (text y) (value y))
    (hbound : ((',' :: gap).intercalate (xs.map text) ++ close :: rest).length < bound) :
    readList item close ((',' :: gap).intercalate (xs.map text) ++ close :: rest) =
      some (xs.map value, rest) := by
  cases xs with
  | nil =>
    unfold readList
    simp only [List.map_nil, List.intercalate_nil, List.nil_append, skip_cons_of_not_blank hclose, if_true]
  | cons x xs =>
    obtain ⟨c, cs, hcs, hblank, hne⟩ := (hitems x List.mem_cons_self).starts
    have hitemsRead := readItems_intercalate gap [] hclose hcomma hgap nofun hitems hbound
    -- The list begins with the head of its first item, which is not the character that closes it.
    obtain ⟨tail, htail⟩ : ∃ tail, (',' :: gap).intercalate ((x :: xs).map text) ++ close :: rest =
        c :: tail := by
      cases xs with
      | nil => exact ⟨cs ++ close :: rest, by simp [hcs]⟩
      | cons y ys => exact ⟨_, by simp only [List.map_cons, List.intercalate_cons_cons, hcs]; rfl⟩
    rw [List.nil_append, htail] at hitemsRead
    rw [htail]
    unfold readList
    simp only [skip_cons_of_not_blank hblank, if_neg hne]
    exact hitemsRead

end Lists

/-- Labels in parentheses. -/
theorem readLabels_append {labels : List String} (hlabels : ∀ l ∈ labels, isIdentifier l = true) :
    readLabels (parenthesized (labelList labels) ++ rest) = some (labels, rest) := by
  have hitems : ∀ l ∈ labels, ReadsItem readLabel ')'
      ((labelList labels ++ ')' :: rest).length + 1) l.toList (id l) := by
    intro l hl
    obtain ⟨c, cs, hcs, hc, -⟩ := exists_cons_of_isIdentifier (hlabels l hl)
    refine ⟨⟨c, cs, hcs, isBlank_eq_false_of_isNameStart hc, ne_of_class hc rfl⟩, ?_⟩
    intro after hafter _
    refine readLabel_append (hlabels l hl) ?_
    intro d hd
    rcases hafter with h | h <;> (rw [h] at hd; cases hd; rfl)
  have hlist := readList_intercalate [' '] rfl (by simp) (List.forall_mem_singleton.mpr rfl) hitems
    (Nat.lt_succ_self _)
  rw [List.map_id] at hlist
  unfold readLabels parenthesized
  rw [List.cons_append, List.append_assoc, expect_cons rfl]
  exact hlist

end MetricQuery.Query
