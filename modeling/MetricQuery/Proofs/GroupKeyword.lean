import MetricQuery.Expr.Render
import MetricQuery.Proofs.DecimalText

/-!
# What follows a grouping keyword

In query text `group_left` and `group_right` may have a list of labels in parentheses behind them. When
a pairing names its side and carries no labels, only the keyword is written, and what follows is the
right operand. A reader that takes a parenthesis at this place as the list of labels is misled exactly
when the operand's text begins with one.

The first character of a text is decided along the left spine of its tree. `Expr.opensWithParen` walks
down that spine, `head?_chars_eq_paren_iff` says that it is right, and
`bare_group_followed_by_paren_iff` says when the right operand of a pairing begins with a parenthesis.
-/

set_option autoImplicit false

namespace MetricQuery

/-- Whether a text given by its characters begins with an opening parenthesis. -/
def startsWithParen (text : List Char) : Bool :=
  decide (text.head? = some '(')

namespace Expr

/-- Whether the text of a tree begins with an opening parenthesis: one around the leftmost operand at some
level, that of a call without a name, or one in a name or a string. -/
def opensWithParen : Expr → Bool
  | number _ => false
  | text s => startsWithParen s.toList
  | selector s => startsWithParen s.metric.toList
  | subquery body _ => body.bodyNeedsParens || body.opensWithParen
  | unary .. => false
  | aggregation .. => false
  | binary op l _ _ => operandNeedsParens op .left l || l.opensWithParen
  | call f _ => decide (f = "") || startsWithParen f.toList

end Expr

/-! ## First characters -/

section Head

variable {a b : List Char} {x : Char}

/-- The first character of two texts is that of the first one, if the second does not supply it. -/
theorem head?_append_eq_iff (hb : b.head? ≠ some x) : (a ++ b).head? = some x ↔ a.head? = some x := by
  cases a with
  | nil => simp [hb]
  | cons c cs => simp

/-- A text begins with a parenthesis if it is put into them, or does so already. -/
theorem head?_parenthesizedIf {needed : Bool} :
    (parenthesizedIf needed a).head? = some '(' ↔ needed = true ∨ a.head? = some '(' := by
  cases needed with
  | false => simp [parenthesizedIf]
  | true => simp [parenthesizedIf, parenthesized]

/-- A modifier that does not begin with a character does not do so when it may be left out. -/
theorem modifierText_head?_ne (modifier : Option String) {write : List Char → List Char}
    (hwrite : ∀ s, (write s).head? ≠ some x) : (modifierText modifier write).head? ≠ some x := by
  unfold modifierText
  split
  · exact hwrite _
  · exact nofun

/-- Time modifiers do not begin with a parenthesis. -/
theorem timeModifiers_head?_ne (offset instant : Option String) :
    (timeModifiers offset instant).head? ≠ some '(' := by
  have hinstant : (modifierText instant fun s => " @ ".toList ++ s).head? ≠ some '(' :=
    modifierText_head?_ne instant fun s => by simp
  unfold timeModifiers
  rw [Ne, head?_append_eq_iff hinstant]
  exact modifierText_head?_ne offset fun s => by simp

/-- A window does not begin with a parenthesis. -/
theorem Window.chars_head?_ne (w : Window) : w.chars.head? ≠ some '(' := by
  unfold Window.chars
  rw [Ne, head?_append_eq_iff (timeModifiers_head?_ne w.offset w.instant)]
  exact modifierText_head?_ne w.range fun s => by simp

/-- Behind the metric of a selector stands no parenthesis. -/
theorem Selector.head?_chars_eq_paren_iff (s : Selector) :
    s.chars.head? = some '(' ↔ s.metric.toList.head? = some '(' := by
  have hrange : (modifierText s.range fun r => '[' :: (r ++ [']'])).head? ≠ some '(' :=
    modifierText_head?_ne s.range fun r => by simp
  have hmatchers : (Selector.matcherChars s.matchers).head? ≠ some '(' := by
    cases s.matchers with
    | nil => exact nofun
    | cons m ms => simp [Selector.matcherChars]
  unfold Selector.chars
  rw [head?_append_eq_iff (timeModifiers_head?_ne s.offset s.instant), head?_append_eq_iff hrange,
    head?_append_eq_iff hmatchers]

/-- The text of a number begins with a digit, a sign or a letter. -/
theorem Double.toQuery_head?_ne (x : Double) : x.toQuery.head? ≠ some '(' := by
  obtain ⟨c, rest, hplain, hc⟩ := Decimal.exists_digit_cons_plain (x.shortest Layout.query.tie)
  have hdecimal : Layout.query.decimal (x.shortest Layout.query.tie) = c :: rest := by
    simpa [Layout.decimal, Layout.query] using hplain
  have hparen : c ≠ '(' := ne_of_class hc rfl
  unfold Double.toQuery
  split
  · simp
  · split
    · split <;> simp
    · unfold Layout.write
      rw [hdecimal]
      split <;> simp [hparen]

end Head

namespace Expr

/-- The first character of a tree's text is a parenthesis exactly when the walk along its left spine says
so. -/
theorem head?_chars_eq_paren_iff (e : Expr) :
    e.chars.head? = some '(' ↔ e.opensWithParen = true := by
  -- Only the leftmost child matters, so the recursion is along the spine and not over all children.
  match e with
  | number x => simp [chars, opensWithParen, Double.toQuery_head?_ne]
  | text s => simp [chars, opensWithParen, startsWithParen]
  | selector s => simp [chars, opensWithParen, startsWithParen, Selector.head?_chars_eq_paren_iff]
  | subquery body w =>
    rw [chars, head?_append_eq_iff w.chars_head?_ne, head?_parenthesizedIf,
      head?_chars_eq_paren_iff body]
    simp [opensWithParen]
  | unary op e =>
    cases op <;> simp [chars, opensWithParen, Sign.symbol]
  | aggregation op e param g =>
    cases op <;> simp [chars, opensWithParen, Aggregator.symbol]
  | binary op l r m =>
    rw [chars, head?_append_eq_iff (by simp), head?_parenthesizedIf, head?_chars_eq_paren_iff l]
    simp [opensWithParen]
  | call f args =>
    rw [chars]
    by_cases hf : f = ""
    · simp [hf, opensWithParen, parenthesized]
    · have hne : f.toList ≠ [] := by simpa using hf
      obtain ⟨c, cs, hc⟩ := List.exists_cons_of_ne_nil hne
      simp [hc, hf, opensWithParen, startsWithParen]

/-- The text of an operand as its operation writes it. -/
def operandChars (parent : BinaryOp) (side : Side) (e : Expr) : List Char :=
  parenthesizedIf (operandNeedsParens parent side e) e.chars

/-- What an operation writes before the keyword of its grouping. -/
def beforeGroupChars (op : BinaryOp) (l : Expr) (m : Matching) : List Char :=
  operandChars op .left l ++ ' ' :: (op.symbol.toList ++ ' ' :: m.scopeChars)

/-- A pairing that names its side and carries no labels is written as the keyword, a blank and the right
operand, and what follows the blank begins with a parenthesis exactly when the operand needs parentheses
or the leftmost part of its own text stands in some. -/
theorem bare_group_followed_by_paren_iff (op : BinaryOp) (l r : Expr) (m : Matching)
    (side : GroupSide) (hside : m.side = some side) (hbare : m.carried = []) :
    ∃ after : List Char,
      (binary op l r m).chars = beforeGroupChars op l m ++ (side.keyword.toList ++ ' ' :: after) ∧
      (after.head? = some '(' ↔ operandNeedsParens op .right r = true ∨ r.opensWithParen = true) := by
  refine ⟨operandChars op .right r, ?_, ?_⟩
  · simp [chars, Matching.chars, Matching.sideChars, hside, hbare, beforeGroupChars, operandChars]
  · rw [operandChars, head?_parenthesizedIf, head?_chars_eq_paren_iff]

/-- A product with a bare keyword whose right operand is a sum. -/
def groupedProduct : Expr :=
  binary .mul (selector { metric := "a" })
    (binary .add (selector { metric := "b" }) (selector { metric := "c" }) {}) { side := some .left }

/-- The sum stands in parentheses right behind the keyword, in the place of a list of labels. -/
theorem groupedProduct_followed_by_paren :
    groupedProduct.render = "a * group_left (b + c)" ∧
    ∃ after : List Char,
      groupedProduct.chars = beforeGroupChars .mul (selector { metric := "a" }) { side := some .left } ++
        ("group_left".toList ++ ' ' :: after) ∧ after.head? = some '(' := by
  obtain ⟨after, hchars, hparen⟩ := bare_group_followed_by_paren_iff .mul (selector { metric := "a" })
    (binary .add (selector { metric := "b" }) (selector { metric := "c" }) {}) { side := some .left }
    .left rfl rfl
  exact ⟨by decide, after, hchars, hparen.mpr (.inl (by decide))⟩

end Expr

end MetricQuery
