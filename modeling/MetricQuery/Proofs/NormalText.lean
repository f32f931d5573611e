import MetricQuery.Proofs.RenderRead

/-!
# Query text shows the normal form

A tree and its normal form are written alike. Two things have to agree for that at every node: the parts of
the node that hold no expressions, and the decisions about parentheses, which look at the kind of a child
and at the sign of a number. A negative number becomes a sign with a number behind it, and every decision
treats the two alike: `ShownAs`.
-/

set_option autoImplicit false

namespace MetricQuery

/-! ## Parts without expressions -/

/-- A modifier that is present stays so. -/
@[simp]
theorem present_present (modifier : Option String) : present (present modifier) = present modifier := by
  unfold present
  rw [Option.filter_filter]
  simp only [Bool.and_self]

/-- An empty modifier is written as none. -/
theorem modifierText_present (modifier : Option String) (write : List Char → List Char) :
    modifierText (present modifier) write = modifierText modifier write := by
  unfold modifierText
  rw [present_present]

/-- So are both time modifiers. -/
theorem timeModifiers_present (offset instant : Option String) :
    timeModifiers (present offset) (present instant) = timeModifiers offset instant := by
  unfold timeModifiers
  rw [modifierText_present, modifierText_present]

namespace Selector

/-- The normal form of a selector is its own. -/
theorem normal_normal (s : Selector) : s.normal.normal = s.normal := by
  simp only [normal, present_present]

/-- A selector is written as its normal form is. -/
theorem chars_normal (s : Selector) : s.normal.chars = s.chars := by
  simp only [chars, normal, modifierText_present, timeModifiers_present]

end Selector

namespace Window

/-- The normal form of a window is its own. -/
theorem normal_normal (w : Window) : w.normal.normal = w.normal := by
  simp only [normal, present_present]
  split
  · rw [present_present]
  · rfl

/-- Without a range the resolution is not written either. -/
theorem chars_normal (w : Window) : w.normal.chars = w.chars := by
  simp only [chars, normal, modifierText_present, timeModifiers_present]
  cases hrange : present w.range with
  | none => simp only [modifierText, hrange]
  | some r => simp only [Option.isSome_some, if_true, modifierText_present]

end Window

namespace Matching

/-- The normal form of a matching is its own. -/
theorem normal_normal (m : Matching) : m.normal.normal = m.normal := by
  simp only [normal]
  split <;> split <;> rfl

/-- Labels are written only behind their keyword. -/
theorem chars_normal (m : Matching) : m.normal.chars = m.chars := by
  unfold chars scopeChars sideChars normal
  cases m.scope <;> cases m.side <;> rfl

end Matching

/-! ## Numbers -/

namespace Double

variable (x : Double)

/-- A double and its absolute value have the same magnitude. -/
@[simp]
theorem magnitude_abs : x.abs.magnitude = x.magnitude :=
  magnitude_ofMagnitude false x.magnitude x.magnitude_lt

/-- No absolute value is negative. -/
@[simp]
theorem isNegative_abs : x.abs.isNegative = false :=
  isNegative_ofMagnitude false x.magnitude

/-- A double is a number when its absolute value is. -/
@[simp]
theorem isNaN_abs : x.abs.isNaN = x.isNaN := by
  unfold isNaN
  rw [magnitude_abs]

/-- The field of the exponent stands above the fraction. -/
theorem exponentField_eq : x.exponentField = x.magnitude / hiddenBit := by
  have hlt := x.bits_lt
  simp only [exponentField, magnitude, signBit, hiddenBit]
  omega

/-- The fraction stands below the hidden bit. -/
theorem fraction_eq : x.fraction = x.magnitude % hiddenBit := by
  simp only [fraction, magnitude, signBit, hiddenBit]
  omega

/-- The digits of a number say nothing about its sign. -/
theorem queryDigits_abs : x.abs.queryDigits = x.queryDigits := by
  have hexponentField : x.abs.exponentField = x.exponentField := by
    rw [exponentField_eq, exponentField_eq, magnitude_abs]
  have hfraction : x.abs.fraction = x.fraction := by
    rw [fraction_eq, fraction_eq, magnitude_abs]
  have hinterval : RoundingInterval.of x.abs = RoundingInterval.of x := by
    unfold RoundingInterval.of significand exponent
    rw [hexponentField, hfraction]
  unfold queryDigits shortest isZero
  rw [magnitude_abs, hinterval]

/-- An absolute value is written without a sign. -/
theorem toQuery_abs {x : Double} (hnan : x.isNaN = false) : x.abs.toQuery = Query.unsignedChars x := by
  rw [Query.toQuery_eq (x.isNaN_abs.trans hnan), isNegative_abs]
  unfold Query.unsignedChars isInfinite
  rw [magnitude_abs, queryDigits_abs]
  rfl

end Double

namespace Expr

/-! ## Decisions -/

/-- The two trees are written alike, and wherever one of them is a child, so is the other. -/
structure ShownAs (e e' : Expr) : Prop where
  chars : e'.chars = e.chars
  /-- As an argument or a parameter. -/
  argument : e'.argument e'.chars = e.argument e.chars
  /-- As an operand of a binary operation. -/
  operand : ∀ op side, operandNeedsParens op side e' = operandNeedsParens op side e
  /-- Under a sign. -/
  signed : e'.isBinary = e.isBinary
  /-- As the body of a subquery. -/
  body : e'.bodyNeedsParens = e.bodyNeedsParens

/-- For most nodes everything follows from their text, since the other node is of the same kind. -/
theorem ShownAs.of_chars {e e' : Expr} (hchars : e'.chars = e.chars) (htext : e.isText = false)
    (htext' : e'.isText = false) (hoperand : ∀ op side, operandNeedsParens op side e' = operandNeedsParens op side e)
    (hsigned : e'.isBinary = e.isBinary) (hbody : e'.bodyNeedsParens = e.bodyNeedsParens) :
    ShownAs e e' := by
  refine ⟨hchars, ?_, hoperand, hsigned, hbody⟩
  rw [argument_of_not_text htext, argument_of_not_text htext', hchars]

/-- A negative number and its sign before the number are treated alike. -/
theorem shownAs_number (x : Double) : ShownAs (number x) x.normalExpr := by
  unfold Double.normalExpr
  cases hnan : x.isNaN with
  | true =>
    have hchars : (number .nan).chars = (number x).chars := by
      simp only [chars, Double.toQuery, hnan]
      rfl
    have hnegative : isNegativeNumber (number x) = false := by
      simp only [isNegativeNumber, hnan, Bool.not_true, Bool.and_false]
    refine .of_chars hchars rfl rfl ?_ rfl ?_
    · intro op side
      simp only [operandNeedsParens, hnegative]
      rfl
    · simp only [bodyNeedsParens, hnegative]
      rfl
  | false =>
    simp only [Bool.false_eq_true, if_false]
    cases hneg : x.isNegative with
    | false => exact .of_chars rfl rfl rfl (fun _ _ => rfl) rfl rfl
    | true =>
      rw [if_pos rfl]
      have hnegative : isNegativeNumber (number x) = true := by
        simp only [isNegativeNumber, hneg, hnan, Bool.not_false, Bool.and_self]
      have hchars : (unary .minus (number x.abs)).chars = (number x).chars := by
        have hsign : (unary .minus (number x.abs)).chars = '-' :: x.abs.toQuery := rfl
        rw [hsign, Double.toQuery_abs hnan, chars, Query.toQuery_eq hnan, hneg]
        rfl
      refine .of_chars hchars rfl rfl ?_ rfl ?_
      · intro op side
        simp only [operandNeedsParens, hnegative, Bool.true_and]
      · simp only [bodyNeedsParens, hnegative]

/-! ## Trees -/

/-- No child can tell a tree from its normal form. -/
theorem shownAs_normal (e : Expr) : ShownAs e e.normal := by
  induction e using childInduction with
  | node e ih =>
    cases e with
    | number x => exact shownAs_number x
    | text s => exact ⟨rfl, rfl, fun _ _ => rfl, rfl, rfl⟩
    | selector s =>
      refine .of_chars s.chars_normal rfl rfl (fun _ _ => rfl) rfl ?_
      simp only [normal, bodyNeedsParens, Selector.normal, present_present]
    | subquery body w =>
      have hbody := ih body List.mem_cons_self
      refine .of_chars ?_ rfl rfl (fun _ _ => rfl) rfl rfl
      rw [normal, chars, chars, hbody.chars, hbody.body, w.chars_normal]
    | unary op e =>
      have he := ih e List.mem_cons_self
      refine .of_chars ?_ rfl rfl (fun _ _ => rfl) rfl rfl
      rw [normal, chars, chars, he.chars, he.signed]
    | aggregation op e param g =>
      have he := ih e List.mem_cons_self
      have hparam : paramChars (normalParam param) = paramChars param := by
        cases param with
        | none => rfl
        | some p =>
          have hp := ih p (List.mem_cons_of_mem _ List.mem_cons_self)
          rw [normalParam, paramChars, paramChars, hp.argument]
      refine .of_chars ?_ rfl rfl (fun _ _ => rfl) rfl rfl
      rw [normal, chars, chars, hparam, he.argument]
    | binary op l r m =>
      have hl := ih l List.mem_cons_self
      have hr := ih r (List.mem_cons_of_mem _ List.mem_cons_self)
      refine .of_chars ?_ rfl rfl (fun _ _ => rfl) rfl rfl
      rw [normal, chars, chars, hl.chars, hl.operand, hr.chars, hr.operand, m.chars_normal]
    | call f args =>
      have hargs : argChars (normalArgs args) = argChars args := by
        rw [argChars_eq_map, argChars_eq_map, normalArgs_eq_map, List.map_map]
        apply List.map_congr_left
        intro c hc
        exact (ih c hc).argument
      refine .of_chars ?_ rfl rfl (fun _ _ => rfl) rfl rfl
      rw [normal, chars, chars, hargs]

/-- The normal form of a number is normal throughout. -/
theorem isNormal_normalExpr (x : Double) : x.normalExpr.All IsNormal := by
  unfold Double.normalExpr
  split
  · exact .leaf (.inl rfl) rfl
  · rename_i hnan
    rw [Bool.not_eq_true] at hnan
    split
    · refine .only trivial rfl (.leaf (.inr ⟨?_, x.isNegative_abs⟩) rfl)
      rw [x.isNaN_abs, hnan]
    · rename_i hneg
      rw [Bool.not_eq_true] at hneg
      exact .leaf (.inr ⟨hnan, hneg⟩) rfl

/-- Nothing in a normal form is written like something else. -/
theorem all_isNormal_normal (e : Expr) : e.normal.All IsNormal := by
  induction e using childInduction with
  | node e ih =>
    cases e with
    | number x => exact isNormal_normalExpr x
    | text s => exact .leaf trivial rfl
    | selector s => exact .leaf s.normal_normal rfl
    | subquery body w => exact .only w.normal_normal rfl (ih body List.mem_cons_self)
    | unary op e => exact .only trivial rfl (ih e List.mem_cons_self)
    | aggregation op e param g =>
      refine .node trivial ?_
      rw [normal, normalParam_eq_map, children, List.forall_mem_cons]
      refine ⟨ih e List.mem_cons_self, ?_⟩
      intro c hc
      rw [Option.mem_toList] at hc
      obtain ⟨p, hp, rfl⟩ := Option.mem_map.mp hc
      exact ih p (List.mem_cons_of_mem _ (Option.mem_toList.mpr hp))
    | binary op l r m =>
      exact .pair m.normal_normal rfl (ih l List.mem_cons_self) (ih r (List.mem_cons_of_mem _ List.mem_cons_self))
    | call f args =>
      refine .node trivial ?_
      rw [normal, normalArgs_eq_map, children, List.forall_mem_map]
      exact ih

/-- The text of a tree is that of its normal form, and as a child of any node the two are treated alike:
they need parentheses at the same places and stand alike as arguments. The normal form holds nothing more
that is written like something else. -/
theorem render_normal (e : Expr) :
    e.normal.render = e.render ∧ ShownAs e e.normal ∧ e.normal.All IsNormal := by
  have hshown := shownAs_normal e
  refine ⟨?_, hshown, all_isNormal_normal e⟩
  unfold render
  rw [hshown.chars]

/-- A negative zero on the left of a power, with an empty offset on the right. -/
example : (binary .pow (number (.zero true)) (selector { metric := "a", offset := some "" }) {}).normal.render =
    "(-0) ^ a" := by
  decide

end Expr

end MetricQuery
