import MetricQuery.Proofs.QueryForms

/-!
# Reading by precedence

A text that is written for an expression is read back in context: at a level that its operators meet, and
before something that does not take its right edge away. `Follow limit rest` says what may stand behind,
`Reads text e level tight` that the text is read as `e` at every level up to `level` before everything that
follows at `tight`. The three ways to make larger texts keep this: parentheses, a sign before, and an
operator between.

A primary is stronger: brackets and time modifiers behind it are taken into it as well.
-/

set_option autoImplicit false

namespace MetricQuery.Query

variable {strict : Bool} {text rest : List Char} {e : Expr} {level tight limit n p : Nat}

/-! ## The reader of inner expressions -/

/-- The reader of expressions, for texts shorter than a bound. -/
def below (strict : Bool) (n : Nat) : Nat → Reader Expr :=
  fun level text => if text.length < n then readExpr strict level text else none

/-- An expression is a signed one with operators behind it. -/
theorem readExpr_eq (level : Nat) (text : List Char) :
    readExpr strict level text =
      (readSigned (below strict text.length) text).bind fun (left, rest) =>
        climb strict (below strict text.length) level left rest := by
  rw [readExpr]
  rfl

/-- With enough steps the reader of a shorter text is the reader of expressions. -/
theorem below_of_lt (h : text.length < n) : below strict n level text = readExpr strict level text :=
  if_pos h

/-! ## What may follow -/

/-- What may stand behind an expression: the end, something that closes, or an operator that binds weaker
than `limit`. -/
inductive Follow (limit : Nat) : List Char → Prop where
  | done : Follow limit []
  | close {c : Char} {text : List Char} (h : c = ')' ∨ c = ',') : Follow limit (c :: text)
  | operator {op : BinaryOp} {text : List Char} (h : strength op < limit) :
    Follow limit (' ' :: (op.symbol.toList ++ ' ' :: text))

namespace Follow

/-- What may follow at one level may follow at a higher one. -/
theorem mono (h : Follow limit rest) (hle : limit ≤ tight) : Follow tight rest := by
  cases h with
  | done => exact .done
  | close hc => exact .close hc
  | operator hop => exact .operator (Nat.lt_of_lt_of_le hop hle)

/-- What may follow an expression ends a word. -/
theorem breaks (h : Follow limit rest) : Breaks rest := by
  cases h with
  | done => exact .nil
  | close hc => exact .cons (hc.imp_right .inl)
  | @operator op text hop =>
    cases op <;> exact .space rfl (by decide) (by decide)

/-- Nothing that follows is a postfix form. -/
theorem readPostfix_eq_none (h : Follow limit rest) : readPostfix rest = none := by
  cases h with
  | done => rfl
  | close hc => rcases hc with rfl | rfl <;> rfl
  | @operator op text hop => cases op <;> rfl

/-- An operator that binds too weakly is left where it is. -/
theorem climb_eq (h : Follow p rest) (inner : Nat → Reader Expr) :
    climb strict inner p e rest = some (e, rest) := by
  rw [climb]
  cases h with
  | done => rfl
  | close hc => rcases hc with rfl | rfl <;> rfl
  | operator hop =>
    rw [readOperator_append]
    simp only [if_pos hop]

end Follow

/-! ## Texts that are read back -/

/-- How the text of an expression begins: not with a blank, nor with something that closes, nor with a
keyword of pairings. -/
structure Opens (text : List Char) : Prop where
  starts : ∃ c cs, text = c :: cs ∧ isBlank c = false ∧ c ≠ ')'
  scope_free : ∀ rest, Stops isNameChar rest → scopeWords.lookup (word (text ++ rest)) = none
  side_free : ∀ rest, Stops isNameChar rest → sideWords.lookup (word (text ++ rest)) = none

/-- No white space is skipped before a text that opens an expression. -/
theorem Opens.skip_append (h : Opens text) (rest : List Char) : skip (text ++ rest) = text ++ rest := by
  obtain ⟨c, cs, rfl, hblank, -⟩ := h.starts
  exact skip_cons_of_not_blank hblank

/-- A text that goes on with no character of a name begins as before. -/
theorem Opens.append (h : Opens text) (hrest : Stops isNameChar rest) : Opens (text ++ rest) := by
  obtain ⟨c, cs, rfl, hblank, hclose⟩ := h.starts
  refine ⟨⟨c, cs ++ rest, rfl, hblank, hclose⟩, ?_, ?_⟩
  · intro after hafter
    rw [List.append_assoc]
    exact h.scope_free _ (hrest.append hafter)
  · intro after hafter
    rw [List.append_assoc]
    exact h.side_free _ (hrest.append hafter)

/-- A character that no name has begins no keyword. -/
theorem Opens.cons {c : Char} (hname : isNameChar c = false) (hblank : isBlank c = false)
    (hclose : c ≠ ')') : Opens (c :: text) := by
  have hword : ∀ rest, word (c :: text ++ rest) = "" := by
    intro rest
    unfold word
    rw [List.cons_append, takeWhile_of_stops (stops_cons.mpr hname)]
  refine ⟨⟨c, text, rfl, hblank, hclose⟩, ?_, ?_⟩
  · intro rest _
    rw [hword]
    rfl
  · intro rest _
    rw [hword]
    rfl

/-- The text is read as the expression at every level up to `level`, before all that follows at `tight`.
The bound is that of the reader for what is inside. -/
structure Reads (strict : Bool) (text : List Char) (e : Expr) (level tight : Nat) : Prop where
  opens : Opens text
  read : ∀ (rest : List Char) (p n : Nat), Follow tight rest → p ≤ level → (text ++ rest).length ≤ n →
    ((readSigned (below strict n) (text ++ rest)).bind fun (left, rest) =>
        climb strict (below strict n) p left rest) =
      climb strict (below strict n) p e rest

/-- The text is read as the expression and what follows is taken for postfix forms. -/
structure ReadsPrimary (strict : Bool) (text : List Char) (e : Expr) : Prop where
  opens : Opens text
  read : ∀ (rest : List Char) (n : Nat), Breaks rest → (text ++ rest).length ≤ n →
    readSigned (below strict n) (text ++ rest) = readPostfixes e rest

/-- A text that is read as a primary is so at every level. -/
theorem ReadsPrimary.reads (h : ReadsPrimary strict text e) : Reads strict text e level tight := by
  refine ⟨h.opens, ?_⟩
  intro rest p n hfollow _ hn
  rw [h.read rest n hfollow.breaks hn, readPostfixes_none hfollow.readPostfix_eq_none, Option.bind_some]

namespace Reads

/-- Where no operator goes on, the reader takes the text and nothing else. -/
theorem readExpr_eq (h : Reads strict text e level tight) (hle : p ≤ level) (hp : Follow p rest)
    (htight : Follow tight rest) : readExpr strict p (text ++ rest) = some (e, rest) := by
  rw [Query.readExpr_eq, h.read rest p _ htight hle (Nat.le_refl _)]
  exact hp.climb_eq _

/-- The same after a blank. -/
theorem readExpr_space (h : Reads strict text e level tight) (hle : p ≤ level) (hp : Follow p rest)
    (htight : Follow tight rest) : readExpr strict p (' ' :: (text ++ rest)) = some (e, rest) := by
  rw [Query.readExpr_eq]
  have hread := h.read rest p _ htight hle (Nat.le_succ _)
  exact hread.trans (hp.climb_eq _)

end Reads

/-! ## Larger texts -/

/-- Without a sign a primary and its postfixes are read. -/
theorem readSigned_of_ne {c : Char} (hblank : isBlank c = false) (hplus : c ≠ '+') (hminus : c ≠ '-')
    (inner : Nat → Reader Expr) : readSigned inner (c :: text) =
      (readPrimary inner (c :: text)).bind fun (e, rest) => readPostfixes e rest := by
  unfold readSigned
  rw [skip_cons_of_not_blank hblank]
  split
  · rename_i heq
    exact absurd (List.cons.inj heq).1 hplus
  · rename_i heq
    exact absurd (List.cons.inj heq).1 hminus
  · rfl

/-- A primary that is neither in parentheses nor a text begins with a digit or a name. -/
theorem readPrimary_of_ne {c : Char} (hblank : isBlank c = false) (hparen : c ≠ '(') (hquote : c ≠ '"')
    (inner : Nat → Reader Expr) : readPrimary inner (c :: text) =
      if c.isDigit then readNumber (c :: text)
      else if isNameStart c then readNamed inner (word (c :: text)) (afterWord (c :: text))
      else none := by
  unfold readPrimary
  rw [skip_cons_of_not_blank hblank]
  split
  · rename_i heq
    cases heq
  · rename_i heq
    exact absurd (List.cons.inj heq).1 hparen
  · rename_i heq
    exact absurd (List.cons.inj heq).1 hquote
  · rename_i heq
    obtain ⟨rfl, rfl⟩ := List.cons.inj heq
    rfl

/-- In parentheses every expression is a primary. -/
theorem Reads.parenthesized (h : Reads strict text e level tight) (hlevel : 1 ≤ level) :
    ReadsPrimary strict (parenthesized text) e := by
  have hopens : Opens (MetricQuery.parenthesized text) := Opens.cons rfl rfl (by simp)
  refine ⟨hopens, ?_⟩
  intro rest n hbreaks hn
  have hinner : below strict n 1 (text ++ ')' :: rest) = some (e, ')' :: rest) := by
    rw [parenthesized_append] at hn
    rw [below_of_lt (Nat.lt_of_succ_le hn)]
    exact h.readExpr_eq hlevel (.close (.inl rfl)) (.close (.inl rfl))
  rw [parenthesized_append, readSigned_of_ne rfl (by simp) (by simp)]
  have hprimary : readPrimary (below strict n) ('(' :: (text ++ ')' :: rest)) = some (e, rest) := by
    change (below strict n 1 (text ++ ')' :: rest)).bind _ = _
    rw [hinner]
    rfl
  rw [hprimary, Option.bind_some]

/-- A sign takes an operand that binds at least as strongly as `^`, and leaves `^` behind it to nobody. -/
theorem Reads.signed (op : Sign) (h : Reads strict text e level tight) (hlevel : strength .pow ≤ level)
    (htight : strength .pow ≤ tight) :
    Reads strict (op.symbol.toList ++ text) (.unary op e) 7 (strength .pow) := by
  constructor
  · cases op <;> exact Opens.cons rfl rfl (by decide)
  · intro rest p n hfollow _ hn
    have hinner : below strict n (strength .pow) (text ++ rest) = some (e, rest) := by
      have hlt : (text ++ rest).length < n := by
        cases op <;> exact Nat.lt_of_succ_le hn
      rw [below_of_lt hlt]
      exact h.readExpr_eq hlevel hfollow (hfollow.mono htight)
    have hsigned : readSigned (below strict n) (op.symbol.toList ++ text ++ rest) = some (.unary op e, rest) := by
      cases op with
      | plus =>
        change (below strict n (strength .pow) (text ++ rest)).bind _ = _
        rw [hinner]
        rfl
      | minus =>
        change (below strict n (strength .pow) (text ++ rest)).bind _ = _
        rw [hinner]
        rfl
    rw [hsigned, Option.bind_some]

/-- The text of a binary operation. Its left operand is read first and the reader climbs over the operator;
its right operand is read at the level that the operator leaves to its right. -/
theorem Reads.binary (op : BinaryOp) {m : Matching} {left right : List Char} {l r : Expr}
    {leftLevel leftTight rightLevel' rightTight : Nat}
    (hleft : Reads strict left l leftLevel leftTight)
    (hright : Reads strict right r rightLevel' rightTight)
    (hll : strength op ≤ leftLevel) (hlt : strength op < leftTight)
    (hrl : rightLevel op ≤ rightLevel') (hrt : rightLevel op ≤ rightTight)
    (hlabels : m.scope.isSome → ∀ l ∈ m.labels, isIdentifier l = true)
    (hcarried : m.side.isSome → ∀ l ∈ m.carried, isIdentifier l = true)
    (hbare : m.side.isSome → m.carried = [] → ∀ rest, Stops isNameChar rest →
      LeavesOperand strict (right ++ rest)) :
    Reads strict (left ++ ' ' :: (op.symbol.toList ++ ' ' :: (m.chars ++ right))) (.binary op l r m.normal)
      (strength op) (rightLevel op) := by
  constructor
  · exact hleft.opens.append (stops_cons.mpr rfl)
  · intro rest p n hfollow hp hn
    have hstops : Stops isNameChar rest := hfollow.breaks.stops_name
    have hskip : skip (right ++ rest) = right ++ rest := hright.opens.skip_append rest
    have hmatching : readMatching strict (' ' :: (m.chars ++ (right ++ rest))) =
        some (m.normal, ' ' :: (right ++ rest)) := by
      refine readMatching_append hlabels hcarried ?_ ?_ ?_
      · rw [hskip]
        exact hright.opens.scope_free rest hstops
      · rw [hskip]
        exact hright.opens.side_free rest hstops
      · intro hside hempty
        rw [hskip]
        exact hbare hside hempty rest hstops
    simp only [List.append_assoc, List.cons_append] at hn ⊢
    rw [hleft.read _ p n (.operator hlt) (Nat.le_trans hp hll) hn]
    -- One step of climbing takes the operator, the pairing and the right operand.
    have hinner : below strict n (rightLevel op) (' ' :: (right ++ rest)) = some (r, rest) := by
      rw [below_of_lt]
      · exact hright.readExpr_space hrl hfollow (hfollow.mono hrt)
      · simp only [List.length_append, List.length_cons] at hn ⊢
        omega
    rw [climb, readOperator_append]
    simp only [if_neg (Nat.not_lt.mpr hp), hmatching, Option.bind_eq_bind, Option.bind_some, hinner]
    rw [if_pos]
    simp only [List.length_append, List.length_cons]
    omega

end MetricQuery.Query
