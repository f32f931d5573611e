import MetricQuery.Proofs.RenderRead

/-!
# Parentheses around operands are needed

The converse of reading back. Where the writer puts an operand in parentheses, the text without this one pair
is not read as the same tree, whatever the operands are and whatever else stands in parentheses.

Without its parentheses an operand is read in pieces, and the tree that comes out need not be followed in
detail. The reader climbs over operators, and a climb keeps two things. It stops before an operator only if
that binds too weakly, so the operators that it takes one after the other never get stronger:
`climb_weakens`. And it only ever builds upwards from what it has, so an expression that was read ends up at
the left edge: `climb_covers`.

* A left operand loses its parentheses when its right edge would take the operator behind it. Then the operator
  at the root of what is read is weaker than the one of the tree, or the root stops short at the left.
* A right operand loses its parentheses when its operator is too weak for the operator before it. Then the
  reader stops inside it, `readExpr_stops_inside`, and goes on with the left operand one level further down.
-/

set_option autoImplicit false

namespace MetricQuery

namespace Query

variable {strict : Bool} {inner : Nat → Reader Expr} {p q n : Nat} {e e' : Expr} {text rest : List Char}

/-! ## Climbing -/

/-- No operator stands at the head of the text, or one that binds weaker than the limit. -/
def WeakerAhead (limit : Nat) (text : List Char) : Prop :=
  ∀ op after, readOperator text = some (op, after) → strength op < limit

/-- A climb takes no operator, or it takes one with its right operand and climbs on. -/
theorem climb_cases (h : climb strict inner p e text = some (e', rest)) :
    (e' = e ∧ rest = text ∧ WeakerAhead p text) ∨
    ∃ op after m middle r tail, readOperator text = some (op, after) ∧ p ≤ strength op ∧
      readMatching strict after = some (m, middle) ∧ inner (rightLevel op) middle = some (r, tail) ∧
      tail.length < text.length ∧ climb strict inner p (.binary op e r m) tail = some (e', rest) := by
  rw [climb] at h
  cases hop : readOperator text with
  | none =>
    rw [hop] at h
    cases h
    refine .inl ⟨rfl, rfl, ?_⟩
    intro op after hahead
    rw [hop] at hahead
    cases hahead
  | some taken =>
    obtain ⟨op, after⟩ := taken
    simp only [hop] at h
    split at h
    · rename_i hweak
      cases h
      refine .inl ⟨rfl, rfl, ?_⟩
      intro op' after' hahead
      rw [hop] at hahead
      cases hahead
      exact hweak
    · rename_i hstrong
      obtain ⟨⟨m, middle⟩, hmatching, h⟩ := Option.bind_eq_some_iff.mp h
      obtain ⟨⟨r, tail⟩, hinner, h⟩ := Option.bind_eq_some_iff.mp h
      simp only at h
      split at h
      · rename_i hshort
        exact .inr ⟨op, after, m, middle, r, tail, rfl, Nat.le_of_not_lt hstrong, hmatching, hinner, hshort, h⟩
      · cases h

/-- What holds of a climb that takes no operator, and of one that takes an operator once it holds of the climb
behind it, holds of every climb. -/
theorem climb_induction {motive : Expr → List Char → Prop}
    (h : climb strict inner p e text = some (e', rest))
    (stop : WeakerAhead p rest → motive e' rest)
    (take : ∀ e text op after m middle r tail, readOperator text = some (op, after) → p ≤ strength op →
      readMatching strict after = some (m, middle) → inner (rightLevel op) middle = some (r, tail) →
      motive (.binary op e r m) tail → motive e text) : motive e text := by
  induction hlength : text.length using Nat.strong_induction_on generalizing e text with
  | _ length ih =>
    rcases climb_cases h with ⟨rfl, rfl, hweak⟩ | ⟨op, after, m, middle, r, tail, hop, hp, hm, hr, hshort, hclimb⟩
    · exact stop hweak
    · exact take e text op after m middle r tail hop hp hm hr (ih _ (hlength ▸ hshort) hclimb rfl)

/-- A climb stops only before an operator that is too weak for it. -/
theorem climb_stops (h : climb strict inner p e text = some (e', rest)) : WeakerAhead p rest :=
  climb_induction (motive := fun _ _ => WeakerAhead p rest) h id fun _ _ _ _ _ _ _ _ _ _ _ _ ih => ih

/-- The readers of right operands stop only before operators that are too weak for them. -/
def StopsRightly (inner : Nat → Reader Expr) : Prop :=
  ∀ level text e rest, inner level text = some (e, rest) → WeakerAhead level rest

/-- A reader of operands stops where it should at every depth. -/
theorem stopsRightly_below (n : Nat) : StopsRightly (below strict n) := by
  intro level text e rest h
  unfold below at h
  split at h
  · rw [readExpr_eq] at h
    obtain ⟨⟨left, middle⟩, -, hclimb⟩ := Option.bind_eq_some_iff.mp h
    exact climb_stops hclimb
  · cases h

/-- Operators are taken in an order in which they never get stronger, so the root of what a climb gives is no
stronger than the first of them. -/
theorem climb_weakens (hinner : StopsRightly inner) (h : climb strict inner p e text = some (e', rest))
    (hq : WeakerAhead q text) : e' = e ∨ ∃ op l r m, e' = .binary op l r m ∧ strength op < q := by
  refine climb_induction (motive := fun e text => ∀ q, WeakerAhead q text →
    e' = e ∨ ∃ op l r m, e' = .binary op l r m ∧ strength op < q) h ?_ ?_ q hq
  · intro _ q _
    exact .inl rfl
  · intro e text op after m middle r tail hop _ _ hr ih q hq
    have hstrength : strength op < q := hq op after hop
    right
    rcases ih _ (hinner _ _ _ _ hr) with rfl | ⟨op', l, r', m', rfl, hweaker⟩
    · exact ⟨op, e, r, m, rfl, hstrength⟩
    · have hright : rightLevel op ≤ strength op + 1 := by
        unfold rightLevel
        split <;> omega
      exact ⟨op', l, r', m', rfl, by omega⟩

/-- What a climb starts from is the left operand of what it gives, or lies further down in it. -/
theorem climb_covers (h : climb strict inner p e text = some (e', rest)) :
    e' = e ∨ ∃ op l r m, e' = .binary op l r m ∧ sizeOf e ≤ sizeOf l := by
  refine climb_induction (motive := fun e _ => e' = e ∨ ∃ op l r m, e' = .binary op l r m ∧ sizeOf e ≤ sizeOf l)
    h (fun _ => .inl rfl) ?_
  intro e text op after m middle r tail _ _ _ _ ih
  right
  rcases ih with rfl | ⟨op', l, r', m', rfl, hsize⟩
  · exact ⟨op, e, r, m, rfl, Nat.le_refl _⟩
  · refine ⟨op', l, r', m', rfl, ?_⟩
    simp only [Expr.binary.sizeOf_spec] at hsize
    omega

/-- A text is read when the climb behind its first operand takes all of it. -/
theorem climb_of_read (h : Query.read strict text = some e) :
    ∃ rest, skip rest = [] ∧ ((readSigned (below strict text.length) text).bind fun (left, rest) =>
      climb strict (below strict text.length) 1 left rest) = some (e, rest) := by
  unfold Query.read at h
  obtain ⟨⟨e', rest⟩, hread, h⟩ := Option.bind_eq_some_iff.mp h
  simp only at h
  split at h
  · rename_i hskip
    cases h
    rw [readExpr_eq] at hread
    exact ⟨rest, hskip, hread⟩
  · cases h

end Query

namespace Expr

open Query

variable {strict : Bool}

/-! ## Left operands -/

/-- A left operand that needs parentheses would take the operator behind it. -/
theorem tight_le_of_needs_left {parent : BinaryOp} {e : Expr} (h : operandNeedsParens parent .left e = true) :
    e.tight ≤ strength parent := by
  cases hbinary : e.isBinary with
  | true =>
    obtain ⟨inner, l, r, m, rfl⟩ := eq_binary_of_isBinary hbinary
    simp only [operandNeedsParens, ← strength_eq_precedence] at h
    simp only [tight]
    by_cases heq : strength inner = strength parent
    · rw [if_neg (not_not.mpr heq)] at h
      have hpow : parent = .pow := isRightAssociative_iff.mp h
      rw [hpow]
      exact rightLevel_le inner
    · rw [if_pos heq, decide_eq_true_eq] at h
      have hnext : rightLevel inner ≤ strength inner + 1 := by
        unfold rightLevel
        split <;> omega
      omega
  | false =>
    rw [operandNeedsParens_of_not_binary hbinary] at h
    simp only [Bool.and_eq_true, decide_eq_true_eq] at h
    rw [tight_of_not_binary hbinary, if_pos h.1.1, h.1.2]

/-- The text of a signed expression begins with its sign. -/
theorem exists_sign_append_of_isSigned {e : Expr} (h : e.isSigned = true) :
    ∃ (op : Sign) (tail : List Char), e.chars = op.symbol.toList ++ tail := by
  cases e with
  | unary op e => exact ⟨op, parenthesizedIf e.isBinary e.chars, rfl⟩
  | number x =>
    simp only [isSigned, isNegativeNumber, Bool.and_eq_true, Bool.not_eq_true'] at h
    refine ⟨.minus, unsignedChars x, ?_⟩
    rw [chars, toQuery_eq h.2, h.1]
    rfl
  | _ => cases h

/-- Behind a sign the operand is read, and then the operators that the sign leaves. -/
theorem readSigned_sign {op : Sign} {text rest : List Char} {e : Expr} {inner : Nat → Reader Expr}
    (h : readSigned inner (op.symbol.toList ++ text) = some (e, rest)) :
    ∃ operand, e = unary op operand ∧ inner (strength .pow) text = some (operand, rest) := by
  have hbind : readSigned inner (op.symbol.toList ++ text) =
      (inner (strength .pow) text).bind fun (operand, rest) => some (unary op operand, rest) := by
    cases op <;> rfl
  rw [hbind] at h
  obtain ⟨⟨operand, rest'⟩, hinner, heq⟩ := Option.bind_eq_some_iff.mp h
  cases heq
  exact ⟨operand, rfl, hinner⟩

/-- A power is no expression that begins with a sign. -/
theorem read_signed_ne_power {op : Sign} {text : List Char} {l r : Expr} {m : Matching} :
    Query.read strict (op.symbol.toList ++ text) ≠ some (binary .pow l r m) := by
  intro hread
  obtain ⟨rest, -, hclimb⟩ := climb_of_read hread
  obtain ⟨⟨e, middle⟩, hsigned, hclimb⟩ := Option.bind_eq_some_iff.mp hclimb
  obtain ⟨operand, rfl, hinner⟩ := readSigned_sign hsigned
  have hahead : WeakerAhead (strength .pow) middle := stopsRightly_below _ _ _ _ _ hinner
  rcases climb_weakens (stopsRightly_below _) hclimb hahead with heq | ⟨op', l', r', m', heq, hweaker⟩
  · cases heq
  · cases heq
    exact Nat.lt_irrefl _ hweaker

/-- Without its parentheses a left operand is read in pieces: its own left operand comes first, and the
operators behind are taken from there. -/
theorem read_bare_left_ne {op inner : BinaryOp} {a b r : Expr} {m m' : Matching} {right : List Char}
    (ha : a.ReadsBack strict) (htext : a.isText = false) (hle : rightLevel inner ≤ strength op) :
    Query.read strict ((binary inner a b m).chars ++ ' ' :: (op.symbol.toList ++ ' ' :: right)) ≠
      some (binary op (binary inner a b m).normal r m') := by
  intro hread
  obtain ⟨level, tight, hleft, hlevel, htight⟩ := ha.left htext inner
  obtain ⟨rest, -, hclimb⟩ := climb_of_read hread
  have hsplit : (binary inner a b m).chars ++ ' ' :: (op.symbol.toList ++ ' ' :: right) =
      operandChars inner .left a ++ ' ' :: (inner.symbol.toList ++ ' ' ::
        (m.chars ++ (operandChars inner .right b ++ ' ' :: (op.symbol.toList ++ ' ' :: right)))) := by
    simp [chars, operandChars]
  rw [hsplit, hleft.read _ 1 _ (.operator htight) (Nat.le_trans (one_le_strength inner) hlevel) (Nat.le_refl _)]
    at hclimb
  rcases climb_cases hclimb with ⟨-, -, hahead⟩ | ⟨op₁, after, m₁, middle, b₁, tail, hop, -, -, hinner, -, hclimb⟩
  · have hweak := hahead inner _ (readOperator_append inner)
    exact absurd hweak (Nat.not_lt.mpr (one_le_strength inner))
  · rw [readOperator_append] at hop
    cases hop
    rcases climb_weakens (stopsRightly_below _) hclimb (stopsRightly_below _ _ _ _ _ hinner) with
      heq | ⟨op₂, l₂, r₂, m₂, heq, hweaker⟩
    · -- The root has only the left part of the operand at its left.
      have hsize := congrArg sizeOf (binary.inj heq).2.1
      simp only [normal, binary.sizeOf_spec] at hsize
      omega
    · -- The operator at the root is too weak.
      cases heq
      omega

/-! ## Right operands -/

/-- A right operand that needs parentheses is too weak for the operator before it. -/
theorem level_lt_of_needs_right {parent : BinaryOp} {e : Expr}
    (h : operandNeedsParens parent .right e = true) : e.level < rightLevel parent := by
  cases hbinary : e.isBinary with
  | true =>
    obtain ⟨inner, l, r, m, rfl⟩ := eq_binary_of_isBinary hbinary
    have hright := strength_le_rightLevel parent
    simp only [operandNeedsParens, ← strength_eq_precedence] at h
    simp only [level]
    by_cases heq : strength inner = strength parent
    · rw [if_neg (not_not.mpr heq), Bool.not_eq_true'] at h
      have hpow : parent ≠ .pow := by
        rintro rfl
        cases h
      have hnext : rightLevel parent = strength parent + 1 := if_neg hpow
      omega
    · rw [if_pos heq, decide_eq_true_eq] at h
      omega
  | false =>
    rw [operandNeedsParens_of_not_binary hbinary] at h
    simp at h

/-- At a level that is too strong for it, an expression is read up to one of its own operators. -/
theorem readExpr_stops_inside {e : Expr} (h : e.All Legible) (hclear : strict = true → e.All BareClear)
    {p n : Nat} (hp : p ≤ strength .pow) (hlevel : e.level < p) {rest : List Char}
    (hn : (e.chars ++ rest).length ≤ n) :
    ∃ part op after, strength op < p ∧
      ((readSigned (below strict n) (e.chars ++ rest)).bind fun (left, rest) =>
        climb strict (below strict n) p left rest) = some (part, ' ' :: (op.symbol.toList ++ ' ' :: after)) := by
  induction e using childInduction generalizing rest with
  | node e ih =>
    cases e with
    | binary op l r m =>
      have hl : l ∈ (binary op l r m).children := List.mem_cons_self
      have htext : l.isText = false := h.root.1
      have hreads : l.ReadsBack strict := readsBack_of_legible (h.child l hl) fun hs => (hclear hs).child l hl
      simp only [level] at hlevel
      obtain ⟨after, hsplit⟩ : ∃ after, (binary op l r m).chars ++ rest =
          operandChars op .left l ++ ' ' :: (op.symbol.toList ++ ' ' :: after) := by
        exact ⟨m.chars ++ (operandChars op .right r ++ rest), by simp [chars, operandChars]⟩
      rw [hsplit] at hn ⊢
      -- The left operand is read whole unless it is too weak itself.
      by_cases hwhole : operandNeedsParens op .left l = true ∨ p ≤ l.level
      · obtain ⟨level, tight, hleft, hle, htight⟩ : ∃ level tight,
            Reads strict (operandChars op .left l) l.normal level tight ∧ p ≤ level ∧ strength op < tight := by
          unfold operandChars
          cases hneeds : operandNeedsParens op .left l with
          | true =>
            exact ⟨6, 7, (hreads.parenthesized htext).reads, hp, Nat.lt_succ_of_le (strength_le op)⟩
          | false =>
            rw [hneeds] at hwhole
            have hle : p ≤ l.level := hwhole.resolve_left Bool.false_ne_true
            exact ⟨l.level, l.tight, hreads.chars htext, hle, (left_fits hneeds).2⟩
        refine ⟨l.normal, op, after, hlevel, ?_⟩
        rw [hleft.read _ p n (.operator htight) hle hn]
        exact (Follow.operator hlevel).climb_eq _
      · rw [not_or, Nat.not_le, Bool.not_eq_true] at hwhole
        have hbare : operandChars op .left l = l.chars := by
          unfold operandChars
          rw [hwhole.1]
          rfl
        rw [hbare] at hn ⊢
        exact ih l hl (h.child l hl) (fun hs => (hclear hs).child l hl) hwhole.2 hn
    | _ =>
      -- Only a binary operation is weak.
      have hpow : strength .pow = 6 := rfl
      simp only [level] at hlevel
      omega

/-- Without its parentheses a right operand is read in pieces, and its operators are taken from the left
operand of the whole. -/
theorem read_bare_right_ne {op : BinaryOp} {l r e : Expr} {m : Matching} (hl : l.ReadsBack strict)
    (hlText : l.isText = false) (hr : r.All Legible) (hclear : strict = true → r.All BareClear)
    (hrText : r.isText = false) (hlevel : r.level < rightLevel op) :
    Query.read strict (operandChars op .left l ++ ' ' :: (op.symbol.toList ++ ' ' :: r.chars)) ≠
      some (binary op l.normal e m) := by
  intro hread
  obtain ⟨level, tight, hleft, hle, htight⟩ := hl.left hlText op
  obtain ⟨rest, hskip, hclimb⟩ := climb_of_read hread
  generalize hn : (operandChars op .left l ++ ' ' :: (op.symbol.toList ++ ' ' :: r.chars)).length = n at hclimb
  rw [hleft.read _ 1 _ (.operator htight) (Nat.le_trans (one_le_strength op) hle) (Nat.le_of_eq hn)] at hclimb
  rcases climb_cases hclimb with ⟨-, rfl, -⟩ | ⟨op₁, after, m₁, middle, part, tail, hop, -, hm, hinner, -, hclimb⟩
  · exact absurd hskip (by cases op <;> exact nofun)
  rw [readOperator_append] at hop
  cases hop
  -- No pairing is written, so the right operand is read from its head.
  have hopens : Opens r.chars := ((readsBack_of_legible hr hclear).chars hrText).opens
  have hhead : skip r.chars = r.chars := by
    simpa only [List.append_nil] using hopens.skip_append []
  have hmatching : readMatching strict (' ' :: r.chars) = some ({}, ' ' :: r.chars) := by
    have hscope := hopens.scope_free [] stops_nil
    have hside := hopens.side_free [] stops_nil
    rw [List.append_nil] at hscope hside
    rw [← hhead] at hscope hside
    exact readMatching_append (m := {}) nofun nofun hscope hside nofun
  rw [hmatching] at hm
  cases hm
  have hshort : (' ' :: r.chars).length < n := by
    simp only [List.length_append, List.length_cons] at hn ⊢
    omega
  have hlength : (r.chars ++ []).length ≤ (' ' :: r.chars).length := by simp
  obtain ⟨part', op₂, after, -, hstop⟩ := readExpr_stops_inside hr hclear (rightLevel_le op) hlevel hlength
  rw [List.append_nil] at hstop
  rw [below_of_lt hshort, readExpr_eq] at hinner
  have hsame := hinner.symm.trans hstop
  cases hsame
  -- The climb cannot end here: it takes the operator at which the right operand was left.
  rcases climb_cases hclimb with ⟨-, rfl, -⟩ | ⟨op₃, after', m₃, middle', r₃, tail', -, -, -, -, -, hclimb⟩
  · exact absurd hskip (by cases op₂ <;> exact nofun)
  rcases climb_covers hclimb with heq | ⟨op₄, l₄, r₄, m₄, heq, hsize⟩
  · have hsize := congrArg sizeOf (binary.inj heq).2.1
    simp only [binary.sizeOf_spec] at hsize
    omega
  · rw [← (binary.inj heq).2.1] at hsize
    simp only [binary.sizeOf_spec] at hsize
    omega

/-! ## Operands -/

/-- A binary operation without a pairing, with parentheses around the operands that are marked. -/
def joinedChars (op : BinaryOp) (leftParens : Bool) (l : Expr) (rightParens : Bool) (r : Expr) : List Char :=
  parenthesizedIf leftParens l.chars ++ ' ' :: (op.symbol.toList ++ ' ' :: parenthesizedIf rightParens r.chars)

/-- The operands of a binary operation stand in the parentheses that they need, and only in these: the text
is read back as the operation, and leaving out the pair around either operand makes it the text of something
else. -/
theorem operand_parens_needed (strict : Bool) (op : BinaryOp) (l r : Expr) (hl : l.All Legible)
    (hlText : l.isText = false) (hr : r.All Legible) (hrText : r.isText = false)
    (hclear : strict = true → l.All BareClear ∧ r.All BareClear) :
    let leftNeeds := operandNeedsParens op .left l
    let rightNeeds := operandNeedsParens op .right r
    (binary op l r {}).chars = joinedChars op leftNeeds l rightNeeds r ∧
    Query.read strict (joinedChars op leftNeeds l rightNeeds r) = some (binary op l r {}).normal ∧
    (leftNeeds = true →
      Query.read strict (joinedChars op false l rightNeeds r) ≠ some (binary op l r {}).normal) ∧
    (rightNeeds = true →
      Query.read strict (joinedChars op leftNeeds l false r) ≠ some (binary op l r {}).normal) := by
  have hlBack : l.ReadsBack strict := readsBack_of_legible hl fun hs => (hclear hs).1
  refine ⟨rfl, ?_, ?_, ?_⟩
  · have hlegible : (binary op l r {}).All Legible := .pair ⟨hlText, hrText, nofun, nofun⟩ rfl hl hr
    refine read_chars (binary op l r {}) hlegible rfl fun hs => ?_
    exact .pair nofun rfl (hclear hs).1 (hclear hs).2
  · intro hneeds
    have htight := tight_le_of_needs_left hneeds
    cases hbinary : l.isBinary with
    | true =>
      obtain ⟨inner, a, b, m, rfl⟩ := eq_binary_of_isBinary hbinary
      have ha : a.ReadsBack strict := readsBack_of_legible (hl.child a List.mem_cons_self) fun hs =>
        (hclear hs).1.child a List.mem_cons_self
      exact read_bare_left_ne ha hl.root.1 htight
    | false =>
      rw [operandNeedsParens_of_not_binary hbinary] at hneeds
      simp only [Bool.and_eq_true, decide_eq_true_eq] at hneeds
      obtain ⟨sign, tail, hsign⟩ := exists_sign_append_of_isSigned hneeds.1.1
      rw [joinedChars, parenthesizedIf, if_neg Bool.false_ne_true, hsign, List.append_assoc, hneeds.1.2]
      exact read_signed_ne_power
  · intro hneeds
    exact read_bare_right_ne hlBack hlText hr (fun hs => (hclear hs).2) hrText (level_lt_of_needs_right hneeds)

/-- A difference with a pairing of its own, whose right operand is a power. -/
def excess : Expr :=
  binary .sub (selector { metric := "used" })
    (binary .pow (selector { metric := "base" }) (number (.infinity true)) {})
    { scope := some .onLabels, labels := ["job"], side := some .left, carried := ["team"] }

/-- A quotient with a negative number on its left. -/
def decline : Expr :=
  binary .div (number (.infinity true)) (selector { metric := "age" }) {}

/-- A difference as the left operand of a product and a quotient as the right one, each with its own grouping. -/
theorem operand_parens_needed_excess :
    (excess.All Legible ∧ excess.All BareClear ∧ decline.All Legible ∧ decline.All BareClear) ∧
    Query.read true "used - on(job) group_left(team) base ^ -Inf * (-Inf / age)".toList ≠
      some (binary .mul excess decline {}).normal ∧
    Query.read true "(used - on(job) group_left(team) base ^ -Inf) * -Inf / age".toList ≠
      some (binary .mul excess decline {}).normal := by
  have hexcess : excess.All Legible := by
    apply All.pair (by decide) rfl
    · exact .leaf (by decide) rfl
    · exact .pair (by decide) rfl (.leaf (by decide) rfl) (.leaf (by decide) rfl)
  have hexcessClear : excess.All BareClear := by
    apply All.pair (fun _ hempty => nomatch hempty) rfl
    · exact .leaf trivial rfl
    · exact .pair nofun rfl (.leaf trivial rfl) (.leaf trivial rfl)
  have hdecline : decline.All Legible :=
    .pair (by decide) rfl (.leaf (by decide) rfl) (.leaf (by decide) rfl)
  have hdeclineClear : decline.All BareClear := .pair nofun rfl (.leaf trivial rfl) (.leaf trivial rfl)
  obtain ⟨-, -, hleft, hright⟩ := operand_parens_needed true .mul excess decline hexcess rfl hdecline rfl
    fun _ => ⟨hexcessClear, hdeclineClear⟩
  exact ⟨⟨hexcess, hexcessClear, hdecline, hdeclineClear⟩, hleft rfl, hright rfl⟩

end Expr

end MetricQuery
