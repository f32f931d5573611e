import MetricQuery.Proofs.GroupKeyword
import MetricQuery.Proofs.QueryPrimaries

/-!
# Legible trees

A tree is legible when its names, labels and modifiers are words, every subquery has a range and strings
stand only where they are quoted.

The text of a legible tree does not look like a list of labels where it matters. A bare `group_left` or
`group_right` may stand before an operand that begins with a parenthesis, but only compound expressions are
put in parentheses, and behind the first word of one neither a comma nor the closing parenthesis follows.
-/

set_option autoImplicit false

namespace MetricQuery

open Query

namespace Expr

/-- Whether an expression is a text literal. -/
def isText : Expr → Bool
  | text _ => true
  | _ => false

/-- What a node asks of its own parts so that its text can be read back. -/
def Legible : Expr → Prop
  | number _ => True
  | text _ => True
  | selector s =>
    isName s.metric = true ∧ (∀ m ∈ s.matchers, isIdentifier m.name = true) ∧
      Modifies s.range ∧ Modifies s.offset ∧ Modifies s.instant
  | subquery body w =>
    body.isText = false ∧ (present w.range).isSome = true ∧
      Modifies w.range ∧ Modifies w.resolution ∧ Modifies w.offset ∧ Modifies w.instant
  | unary _ e => e.isText = false
  | aggregation _ _ _ g =>
    (∀ l ∈ g.keep, isIdentifier l = true) ∧ (∀ l ∈ g.drop, isIdentifier l = true)
  | binary _ l r m =>
    l.isText = false ∧ r.isText = false ∧
      (m.scope.isSome → ∀ label ∈ m.labels, isIdentifier label = true) ∧
      (m.side.isSome → ∀ label ∈ m.carried, isIdentifier label = true)
  | call f _ => isName f = true

instance : DecidablePred Legible
  | number _ => inferInstanceAs (Decidable True)
  | text _ => inferInstanceAs (Decidable True)
  | selector _ => inferInstanceAs (Decidable (_ ∧ _))
  | subquery _ _ => inferInstanceAs (Decidable (_ ∧ _))
  | unary _ _ => inferInstanceAs (Decidable (_ = _))
  | aggregation _ _ _ _ => inferInstanceAs (Decidable (_ ∧ _))
  | binary _ _ _ _ => inferInstanceAs (Decidable (_ ∧ _))
  | call _ _ => inferInstanceAs (Decidable (_ = _))

end Expr

/-! ## Texts that are no labels -/

namespace Query

variable {text rest : List Char}

/-- A text that ends the word before it and goes on with no list. -/
structure GoesOn (rest : List Char) : Prop where
  stops : Stops isNameChar rest
  next : ∀ c ∈ (skip rest).head?, c ≠ ')' ∧ c ≠ ','

/-- A text goes on that begins with a character which ends a name and no item of a list. -/
theorem GoesOn.cons {c : Char} (hname : isNameChar c = false) (hblank : isBlank c = false)
    (hclose : c ≠ ')') (hcomma : c ≠ ',') : GoesOn (c :: text) := by
  refine ⟨stops_cons.mpr hname, ?_⟩
  intro d hd
  rw [skip_cons_of_not_blank hblank] at hd
  cases hd
  exact ⟨hclose, hcomma⟩

/-- So does one with a blank before such a character. -/
theorem GoesOn.space {c : Char} (hblank : isBlank c = false) (hclose : c ≠ ')') (hcomma : c ≠ ',') :
    GoesOn (' ' :: c :: text) := by
  refine ⟨stops_cons.mpr rfl, ?_⟩
  intro d hd
  rw [skip_space, skip_cons_of_not_blank hblank] at hd
  cases hd
  exact ⟨hclose, hcomma⟩

/-- The first word of the text, if it is one at all, is no item of a list. -/
def Unlisted (text : List Char) : Prop :=
  isIdentifier (word text) = false ∨ ∀ c ∈ (skip (afterWord text)).head?, c ≠ ')' ∧ c ≠ ','

/-- Only a name is read as a label. -/
theorem readLabel_of_not_identifier (h : isIdentifier (word (skip text)) = false) :
    readLabel text = none := by
  unfold readLabel
  rw [h]
  rfl

/-- A text that is no item of a list is not read as a list. -/
theorem Unlisted.readList_eq_none (h : Unlisted text) (hopens : ∃ c cs, text = c :: cs ∧
    isBlank c = false ∧ c ≠ ')') : readList readLabel ')' text = none := by
  obtain ⟨c, cs, htext, hblank, hclose⟩ := hopens
  have hskip : skip text = text := by
    rw [htext]
    exact skip_cons_of_not_blank hblank
  have hitems : readItems readLabel ')' text = none := by
    rw [readItems, hskip]
    cases hidentifier : isIdentifier (word text) with
    | false =>
      rw [readLabel_of_not_identifier (by rw [hskip]; exact hidentifier)]
      rfl
    | true =>
      have hnext : ∀ c ∈ (skip (afterWord text)).head?, c ≠ ')' ∧ c ≠ ',' := by
        rcases h with h | h
        · rw [hidentifier] at h
          cases h
        · exact h
      have hlabel : readLabel text = some (word text, afterWord text) := by
        unfold readLabel
        rw [hskip, if_pos hidentifier]
      rw [hlabel, Option.bind_eq_bind, Option.bind_some]
      cases hafter : skip (afterWord text) with
      | nil => simp only [hafter]
      | cons d ds =>
        obtain ⟨hd, hcomma⟩ := hnext d (by rw [hafter]; rfl)
        simp only [hafter, if_neg hd, if_neg hcomma]
  unfold readList
  rw [hskip]
  rw [htext] at hitems ⊢
  simp only [if_neg hclose]
  exact hitems

/-- A character that begins no name. -/
theorem Unlisted.of_not_start {c : Char} (h : isNameStart c = false) : Unlisted (c :: text) := by
  left
  unfold isIdentifier word
  rw [String.toList_ofList]
  split
  · rfl
  · rename_i d ds heq
    rw [List.takeWhile_cons] at heq
    split at heq
    · rw [← (List.cons.inj heq).1, h]
      rfl
    · cases heq

/-- A name is no item if the text goes on behind it. -/
theorem Unlisted.of_identifier {name : String} (hname : isIdentifier name = true) (h : GoesOn rest) :
    Unlisted (name.toList ++ rest) := by
  obtain ⟨-, -, -, -, hchars⟩ := exists_cons_of_isIdentifier hname
  right
  rw [afterWord_append hchars h.stops]
  exact h.next

end Query

namespace Expr

/-- What is written for a node does not look like a list of labels: not before something that goes on with
no list, not at all if the node is of the kind that is put in parentheses, and not in a parenthesis with
which it begins itself. -/
structure NotLabels (e : Expr) : Prop where
  starts : ∃ c cs, e.chars = c :: cs ∧ isBlank c = false ∧ c ≠ ')'
  before : ∀ rest, GoesOn rest → Unlisted (e.chars ++ rest)
  compound : e.bodyNeedsParens = true → ∀ rest, Unlisted (e.chars ++ rest)
  inside : ∀ rest after, e.chars ++ rest = '(' :: after → readList readLabel ')' after = none

namespace NotLabels

variable {e l : Expr}

/-- The text begins with a sign or a digit. -/
theorem of_char {c : Char} {cs : List Char} (hchars : e.chars = c :: cs) (hstart : isNameStart c = false)
    (hblank : isBlank c = false) (hopen : c ≠ '(') (hclose : c ≠ ')') : e.NotLabels := by
  have hunlisted : ∀ rest, Unlisted (e.chars ++ rest) := by
    intro rest
    rw [hchars, List.cons_append]
    exact .of_not_start hstart
  refine ⟨⟨c, cs, hchars, hblank, hclose⟩, fun rest _ => hunlisted rest, fun _ => hunlisted, ?_⟩
  intro rest after heq
  rw [hchars] at heq
  exact absurd (List.cons.inj heq).1 hopen

/-- The text begins with a name. -/
theorem of_name {name : String} {more : List Char} (hchars : e.chars = name.toList ++ more)
    (hname : isIdentifier name = true) (hmore : ∀ rest, GoesOn rest → GoesOn (more ++ rest))
    (hcompound : e.bodyNeedsParens = true → ∀ rest, GoesOn (more ++ rest)) : e.NotLabels := by
  obtain ⟨c, cs, hcs, hc, -⟩ := exists_cons_of_isIdentifier hname
  constructor
  · refine ⟨c, cs ++ more, ?_, isBlank_eq_false_of_isNameStart hc, ne_of_class hc rfl⟩
    rw [hchars, hcs, List.cons_append]
  · intro rest hrest
    rw [hchars, List.append_assoc]
    exact .of_identifier hname (hmore rest hrest)
  · intro hneeds rest
    rw [hchars, List.append_assoc]
    exact .of_identifier hname (hcompound hneeds rest)
  · intro rest after heq
    rw [hchars, hcs] at heq
    exact absurd (List.cons.inj heq).1 (ne_of_class hc rfl)

/-- The text begins with that of another node, which may stand in parentheses. -/
theorem of_leftmost {needed : Bool} {tail : List Char}
    (hchars : e.chars = parenthesizedIf needed l.chars ++ tail) (hl : l.NotLabels)
    (hneeded : needed = true → l.bodyNeedsParens = true) (htail : ∀ rest, GoesOn (tail ++ rest)) :
    e.NotLabels := by
  cases needed with
  | true =>
    have hparen : ∀ rest, e.chars ++ rest = '(' :: (l.chars ++ (')' :: (tail ++ rest))) := by
      intro rest
      rw [hchars]
      simp [parenthesizedIf, parenthesized]
    have hunlisted : ∀ rest, Unlisted (e.chars ++ rest) := by
      intro rest
      rw [hparen]
      exact .of_not_start rfl
    refine ⟨?_, fun rest _ => hunlisted rest, fun _ => hunlisted, ?_⟩
    · refine ⟨'(', l.chars ++ (')' :: tail), ?_, rfl, by decide⟩
      have hnil := hparen []
      rwa [List.append_nil, List.append_nil] at hnil
    · intro rest after heq
      rw [hparen] at heq
      obtain ⟨-, rfl⟩ := List.cons.inj heq
      obtain ⟨c, cs, hcs, hblank, hclose⟩ := hl.starts
      refine (hl.compound (hneeded rfl) _).readList_eq_none
        ⟨c, cs ++ ')' :: (tail ++ rest), ?_, hblank, hclose⟩
      rw [hcs, List.cons_append]
  | false =>
    have hplain : ∀ rest, e.chars ++ rest = l.chars ++ (tail ++ rest) := by
      intro rest
      rw [hchars, List.append_assoc]
      rfl
    have hunlisted : ∀ rest, Unlisted (e.chars ++ rest) := by
      intro rest
      rw [hplain]
      exact hl.before _ (htail rest)
    refine ⟨?_, fun rest _ => hunlisted rest, fun _ => hunlisted, ?_⟩
    · obtain ⟨c, cs, hcs, hblank, hclose⟩ := hl.starts
      refine ⟨c, cs ++ tail, ?_, hblank, hclose⟩
      have hnil := hplain []
      rwa [List.append_nil, List.append_nil, hcs] at hnil
    · intro rest after heq
      rw [hplain] at heq
      exact hl.inside _ after heq

end NotLabels

/-! ## The nodes -/

/-- A number is not read as labels. -/
theorem notLabels_number (x : Double) : NotLabels (number x) := by
  cases hnan : x.isNaN with
  | true =>
    have hchars : (number x).chars = "NaN".toList ++ [] := by
      simp [chars, Double.toQuery, hnan]
    have hplain : (number x).bodyNeedsParens = false := by
      simp [bodyNeedsParens, isNegativeNumber, hnan]
    refine .of_name hchars rfl (fun rest h => h) ?_
    intro hparens
    rw [hplain] at hparens
    cases hparens
  | false =>
    have hchars : (number x).chars = (if x.isNegative then ['-'] else []) ++ unsignedChars x :=
      toQuery_eq hnan
    cases hneg : x.isNegative with
    | true =>
      rw [hneg] at hchars
      exact .of_char hchars rfl rfl (by decide) (by decide)
    | false =>
      have hunsigned : (number x).chars = unsignedChars x := by
        rw [hchars, hneg]
        rfl
      have hplain : (number x).bodyNeedsParens = false := by
        simp [bodyNeedsParens, isNegativeNumber, hneg]
      cases hinf : x.isInfinite with
      | true =>
        have hword : (number x).chars = "Inf".toList ++ [] := by
          rw [hunsigned, unsignedChars, if_pos hinf, List.append_nil]
        refine .of_name hword rfl (fun rest h => h) ?_
        intro hparens
        rw [hplain] at hparens
        cases hparens
      | false =>
        obtain ⟨c, cs, hdigits, hc⟩ := Decimal.exists_digit_cons_plain (x.shortest .up)
        have hcons : (number x).chars = c :: cs := by
          rw [hunsigned, unsignedChars, hinf, if_neg Bool.false_ne_true, Double.queryDigits_eq, hdigits]
        have hstart : isNameStart c = false := by
          cases hstart : isNameStart c with
          | false => rfl
          | true =>
            rw [isDigit_eq_false_of_isNameStart hstart] at hc
            cases hc
        exact .of_char hcons hstart (isBlank_eq_false_of_isDigit hc) (ne_of_class hc rfl) (ne_of_class hc rfl)

/-- A text goes on with time modifiers, or behind them if there are none. -/
theorem goesOn_timeModifiers {offset instant : Option String} {rest : List Char}
    (h : (present offset).isSome = true ∨ (present instant).isSome = true ∨ GoesOn rest) :
    GoesOn (timeModifiers offset instant ++ rest) := by
  unfold timeModifiers modifierText
  cases hoffset : present offset with
  | some s => exact .space rfl (by decide) (by decide)
  | none =>
    cases hinstant : present instant with
    | some s => exact .space rfl (by decide) (by decide)
    | none =>
      rw [hoffset, hinstant] at h
      rcases h with h | h | h
      · cases h
      · cases h
      · exact h

/-- A selector is not read as labels. -/
theorem notLabels_selector {s : Selector} (hmetric : isName s.metric = true) :
    NotLabels (selector s) := by
  have hmore : ∀ rest, (present s.offset).isSome = true ∨ (present s.instant).isSome = true ∨ GoesOn rest →
      GoesOn (Selector.matcherChars s.matchers ++ (modifierText s.range (fun r => '[' :: (r ++ [']'])) ++
        timeModifiers s.offset s.instant) ++ rest) := by
    intro rest h
    cases s.matchers with
    | nil =>
      rw [Selector.matcherChars, List.nil_append, List.append_assoc]
      refine modifierText_append_of ?_ (goesOn_timeModifiers h)
      intro r
      exact .cons rfl rfl (by decide) (by decide)
    | cons m ms => exact .cons rfl rfl (by decide) (by decide)
  have hchars : (selector s).chars = s.metric.toList ++ (Selector.matcherChars s.matchers ++
      (modifierText s.range (fun r => '[' :: (r ++ [']'])) ++ timeModifiers s.offset s.instant)) := by
    simp [chars, Selector.chars]
  refine .of_name hchars (isName_spec hmetric).1 (fun rest h => hmore rest (.inr (.inr h))) ?_
  intro hneeds rest
  rw [bodyNeedsParens, Bool.or_eq_true] at hneeds
  exact hmore rest (hneeds.imp_right .inl)

/-- A text goes on with a grouping or with the parenthesis behind it. -/
theorem goesOn_grouping (g : Grouping) (rest : List Char) : GoesOn (g.chars ++ '(' :: rest) := by
  by_cases hempty : g.drop = []
  · rw [grouping_chars_of_drop_eq_nil hempty]
    unfold keepChars
    split
    · exact .cons rfl rfl (by decide) (by decide)
    · exact .space rfl (by decide) (by decide)
  · rw [grouping_chars_of_drop_ne_nil hempty]
    exact .space rfl (by decide) (by decide)

/-- What needs parentheses as an operand does so as the body of a subquery. -/
theorem bodyNeedsParens_of_operandNeedsParens {parent : BinaryOp} {side : Side} {e : Expr}
    (h : operandNeedsParens parent side e = true) : e.bodyNeedsParens = true := by
  cases e with
  | binary op l r m => rfl
  | unary op e => rfl
  | subquery body w => rfl
  | selector s => cases h
  | _ =>
    simp only [operandNeedsParens, Bool.and_eq_true] at h
    exact h.1.1

/-- No legible expression is read as labels where its text stands in parentheses. -/
theorem notLabels_of_legible {e : Expr} (h : e.All Legible) (htext : e.isText = false) : e.NotLabels := by
  induction e using childInduction with
  | node e ih =>
    have hroot := h.root
    have hbelow : ∀ c ∈ e.children, c.isText = false → c.NotLabels := by
      intro c hc hct
      exact ih c hc (h.child c hc) hct
    cases e with
    | number x => exact notLabels_number x
    | text s => cases htext
    | selector s => exact notLabels_selector hroot.1
    | subquery body w =>
      obtain ⟨hbody, hsome, -⟩ := hroot
      refine .of_leftmost rfl (hbelow body List.mem_cons_self hbody) id ?_
      intro rest
      obtain ⟨r, hr⟩ := Option.isSome_iff_exists.mp hsome
      unfold Window.chars
      rw [modifierText, hr]
      exact .cons rfl rfl (by decide) (by decide)
    | unary op e =>
      cases op <;> exact .of_char rfl rfl rfl (by decide) (by decide)
    | aggregation op e param g =>
      have hsymbol : isIdentifier op.symbol = true := by
        cases op <;> rfl
      have hchars : (aggregation op e param g).chars = op.symbol.toList ++
          (g.chars ++ parenthesized (paramChars param ++ e.argument e.chars)) := by
        rw [chars, List.append_assoc]
      apply NotLabels.of_name hchars hsymbol
      · intro rest _
        rw [List.append_assoc]
        exact goesOn_grouping g _
      · intro hparens
        cases hparens
    | binary op l r m =>
      refine .of_leftmost rfl (hbelow l List.mem_cons_self hroot.1) bodyNeedsParens_of_operandNeedsParens ?_
      intro rest
      cases op <;> exact .space rfl (by decide) (by decide)
    | call f args =>
      apply NotLabels.of_name rfl (isName_spec hroot).1
      · intro rest _
        exact .cons rfl rfl (by decide) (by decide)
      · intro hparens
        cases hparens

end Expr

end MetricQuery
