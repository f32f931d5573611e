import MetricQuery.Proofs.LegibleTrees

/-!
# Query text keeps the tree

Parentheses are decided from a parent and its child alone. Reading the text of a whole tree back gives the
tree in normal form all the same: by induction over the tree, the text of every part is read back at the
level of its own operator, before whatever its parents put behind it. `Expr.level` and `Expr.tight` are the
two numbers that a node owes to its context.

Every legible tree is read back by a reader that leaves a parenthesis behind a bare `group_left` or
`group_right` to the operand when it holds no labels. A strict reader, which takes each of them for labels,
needs a tree in which none follows.
-/

set_option autoImplicit false

namespace MetricQuery

open Query

/-! ## Strengths of operators -/

namespace Query

/-- Every operator binds. -/
theorem one_le_strength (op : BinaryOp) : 1 ≤ strength op := by
  cases op <;> decide

/-- No operator binds more strongly than the power. -/
theorem strength_le (op : BinaryOp) : strength op ≤ strength .pow := by
  cases op <;> decide

/-- Nor does any as strongly. -/
theorem strength_eq_pow_iff {op : BinaryOp} : strength op = strength .pow ↔ op = .pow := by
  cases op <;> decide

/-- Only the power associates to the right. -/
theorem isRightAssociative_iff {op : BinaryOp} : op.isRightAssociative = true ↔ op = .pow := by
  cases op <;> decide

/-- No operator asks more of its right operand than the power. -/
theorem rightLevel_le (op : BinaryOp) : rightLevel op ≤ strength .pow := by
  cases op <;> decide

/-- What an operator asks of its right operand is at least its own strength. -/
theorem strength_le_rightLevel (op : BinaryOp) : strength op ≤ rightLevel op := by
  cases op <;> decide

end Query

namespace Expr

/-- No parenthesis follows a bare keyword of a pairing. -/
def BareClear : Expr → Prop
  | binary op _ r m =>
    m.side.isSome → m.carried = [] → operandNeedsParens op .right r = false ∧ r.opensWithParen = false
  | _ => True

/-! ## Levels of nodes -/

/-- The weakest operator outside parentheses in the text of a node; a sign and a primary have none. -/
def level : Expr → Nat
  | binary op _ _ _ => strength op
  | _ => 7

/-- Whether the text of a node begins with a sign of its own. -/
def isSigned : Expr → Bool
  | unary _ _ => true
  | e => e.isNegativeNumber

/-- The operators that may not stand behind the text of a node bind at least this strongly. -/
def tight : Expr → Nat
  | binary op _ _ _ => rightLevel op
  | e => if e.isSigned then strength .pow else 7

/-- Every expression is above the lowest level. -/
theorem one_le_level (e : Expr) : 1 ≤ e.level := by
  cases e with
  | binary op l r m => exact one_le_strength op
  | _ => exact Nat.le_add_left 1 6

/-- What is known as a binary operation is one. -/
theorem eq_binary_of_isBinary {e : Expr} (h : e.isBinary = true) : ∃ op l r m, e = binary op l r m := by
  cases e with
  | binary op l r m => exact ⟨op, l, r, m, rfl⟩
  | _ => cases h

/-- All other expressions are at the highest level. -/
theorem level_of_not_binary {e : Expr} (h : e.isBinary = false) : e.level = 7 := by
  cases e with
  | binary op l r m => cases h
  | _ => rfl

/-- They hold tight, except that a sign lets a power take its operand. -/
theorem tight_of_not_binary {e : Expr} (h : e.isBinary = false) :
    e.tight = if e.isSigned then strength .pow else 7 := by
  cases e with
  | binary op l r m => cases h
  | _ => rfl

/-- They hold at least as tight as a power. -/
theorem strength_pow_le_tight {e : Expr} (h : e.isBinary = false) : strength .pow ≤ e.tight := by
  rw [tight_of_not_binary h]
  split
  · exact Nat.le_refl _
  · exact Nat.le_succ 6

/-! ## Operands -/

/-- Of them only a sign needs parentheses, on the left of a power. -/
theorem operandNeedsParens_of_not_binary {e : Expr} (h : e.isBinary = false) (parent : BinaryOp)
    (side : Side) : operandNeedsParens parent side e =
      (e.isSigned && decide (parent = .pow) && decide (side = .left)) := by
  cases e with
  | binary op l r m => cases h
  | unary op e => simp only [operandNeedsParens, isSigned, Bool.true_and]
  | _ => rfl

/-- A left operand without parentheses leaves the operator behind it alone. -/
theorem left_fits {parent : BinaryOp} {e : Expr} (h : operandNeedsParens parent .left e = false) :
    strength parent ≤ e.level ∧ strength parent < e.tight := by
  have hle := strength_le parent
  cases hbinary : e.isBinary with
  | true =>
    obtain ⟨inner, l, r, m, rfl⟩ := eq_binary_of_isBinary hbinary
    have hright := strength_le_rightLevel inner
    simp only [operandNeedsParens, ← strength_eq_precedence] at h
    simp only [level, tight]
    by_cases heq : strength inner = strength parent
    · -- The operator groups to the left, so the same strength is fine on this side.
      rw [if_neg (not_not.mpr heq)] at h
      have hpow : inner ≠ .pow := by
        rintro rfl
        rw [strength_eq_pow_iff.mp heq.symm] at h
        cases h
      have hnext : rightLevel inner = strength inner + 1 := if_neg hpow
      omega
    · rw [if_pos heq, decide_eq_false_iff_not] at h
      omega
  | false =>
    rw [level_of_not_binary hbinary, tight_of_not_binary hbinary]
    rw [operandNeedsParens_of_not_binary hbinary, decide_eq_true rfl, Bool.and_true] at h
    have hpow : strength .pow = 6 := rfl
    cases hsigned : e.isSigned with
    | true =>
      rw [hsigned, Bool.true_and, decide_eq_false_iff_not] at h
      have hne : strength parent ≠ strength .pow := fun heq => h (strength_eq_pow_iff.mp heq)
      rw [if_pos rfl]
      omega
    | false =>
      rw [if_neg Bool.false_ne_true]
      omega

/-- A right operand without parentheses holds no operator that the one before it could take. -/
theorem right_fits {parent : BinaryOp} {e : Expr} (h : operandNeedsParens parent .right e = false) :
    rightLevel parent ≤ e.level ∧ rightLevel parent ≤ e.tight := by
  have hle := rightLevel_le parent
  cases hbinary : e.isBinary with
  | true =>
    obtain ⟨inner, l, r, m, rfl⟩ := eq_binary_of_isBinary hbinary
    have hright := strength_le_rightLevel inner
    simp only [operandNeedsParens, ← strength_eq_precedence] at h
    simp only [level, tight]
    by_cases heq : strength inner = strength parent
    · -- Only `^` groups to the right.
      rw [if_neg (not_not.mpr heq), Bool.not_eq_false'] at h
      have hpow : parent = .pow := isRightAssociative_iff.mp h
      have hsame : rightLevel parent = strength parent := if_pos hpow
      omega
    · rw [if_pos heq, decide_eq_false_iff_not] at h
      have hnext : rightLevel parent ≤ strength parent + 1 := by
        unfold rightLevel
        split <;> omega
      omega
  | false =>
    have htight := strength_pow_le_tight hbinary
    have hpow : strength .pow = 6 := rfl
    rw [level_of_not_binary hbinary]
    omega

/-! ## Reading back -/

/-- The text of a node as an argument is read back as its normal form. -/
structure ReadsBack (strict : Bool) (e : Expr) : Prop where
  reads : Reads strict (e.argument e.chars) e.normal e.level e.tight
  primary : e.isBinary = false → e.isSigned = false →
    ReadsPrimary strict (e.argument e.chars) e.normal

variable {strict : Bool}

/-- An expression that is read as a primary where it stands as an argument is read back. -/
theorem ReadsBack.of_primary {e : Expr} (h : ReadsPrimary strict (e.argument e.chars) e.normal) :
    ReadsBack strict e :=
  ⟨h.reads, fun _ _ => h⟩

/-- What is no text literal stands as an argument as it stands anywhere. -/
theorem argument_of_not_text {e : Expr} (h : e.isText = false) (shown : List Char) :
    e.argument shown = shown := by
  cases e with
  | text s => cases h
  | _ => rfl

section Parts

variable {e : Expr} (h : e.ReadsBack strict) (htext : e.isText = false)
include h htext

/-- An expression that is read back is read from its own text. -/
theorem ReadsBack.chars : Reads strict e.chars e.normal e.level e.tight := by
  have hreads := h.reads
  rw [argument_of_not_text htext] at hreads
  exact hreads

/-- So it is in parentheses. -/
theorem ReadsBack.parenthesized : ReadsPrimary strict (parenthesized e.chars) e.normal :=
  (h.chars htext).parenthesized e.one_le_level

/-- So it is as a left operand, with the parentheses that it needs there. -/
theorem ReadsBack.left (parent : BinaryOp) : ∃ level tight,
    Reads strict (operandChars parent .left e) e.normal level tight ∧
      strength parent ≤ level ∧ strength parent < tight := by
  unfold operandChars
  cases hneeds : operandNeedsParens parent .left e with
  | true =>
    have hle := strength_le parent
    exact ⟨6, 7, (h.parenthesized htext).reads, hle, Nat.lt_succ_of_le hle⟩
  | false => exact ⟨e.level, e.tight, h.chars htext, left_fits hneeds⟩

/-- So it is as a right operand, with the parentheses that it needs there. -/
theorem ReadsBack.right (parent : BinaryOp) : ∃ level tight,
    Reads strict (operandChars parent .right e) e.normal level tight ∧
      rightLevel parent ≤ level ∧ rightLevel parent ≤ tight := by
  unfold operandChars
  cases hneeds : operandNeedsParens parent .right e with
  | true =>
    have hle := rightLevel_le parent
    exact ⟨6, 6, (h.parenthesized htext).reads, hle, hle⟩
  | false => exact ⟨e.level, e.tight, h.chars htext, right_fits hneeds⟩

/-- The operand of a sign. -/
theorem ReadsBack.signed (op : Sign) :
    Reads strict (op.symbol.toList ++ parenthesizedIf e.isBinary e.chars) (unary op e.normal) 7
      (strength .pow) := by
  cases hbinary : e.isBinary with
  | true =>
    have hprimary := h.parenthesized htext
    exact Reads.signed op (hprimary.reads : Reads strict _ _ (strength .pow) (strength .pow)) (Nat.le_refl _)
      (Nat.le_refl _)
  | false =>
    refine Reads.signed op (h.chars htext) ?_ (strength_pow_le_tight hbinary)
    rw [level_of_not_binary hbinary]
    exact Nat.le_succ 6

/-- The body of a subquery is a primary, in parentheses or by itself. -/
theorem ReadsBack.body : ReadsPrimary strict (parenthesizedIf e.bodyNeedsParens e.chars) e.normal := by
  cases hneeds : e.bodyNeedsParens with
  | true => exact h.parenthesized htext
  | false =>
    have hprimary := h.primary
    rw [argument_of_not_text htext] at hprimary
    cases e with
    | binary op l r m => cases hneeds
    | unary op e => cases hneeds
    | subquery body w => cases hneeds
    | selector s => exact hprimary rfl rfl
    | _ => exact hprimary rfl hneeds

end Parts

/-! ## The nodes -/

/-- A number is read back. -/
theorem readsBack_number (x : Double) : ReadsBack strict (number x) := by
  cases hnan : x.isNaN with
  | true =>
    apply ReadsBack.of_primary
    have htext : argument (number x) (number x).chars = "NaN".toList := by
      simp [argument, chars, Double.toQuery, hnan]
    have hnormal : (number x).normal = number .nan := by
      simp [normal, Double.normalExpr, hnan]
    rw [htext, hnormal]
    exact readsPrimary_numberWord rfl rfl (Opens.of_identifier rfl rfl rfl)
  | false =>
    have hunsigned : ReadsPrimary strict (unsignedChars x) (number x.abs) := readsPrimary_unsigned hnan
    have htext : argument (number x) (number x).chars =
        (if x.isNegative then ['-'] else []) ++ unsignedChars x := by
      rw [argument_of_not_text rfl, chars, toQuery_eq hnan]
    cases hneg : x.isNegative with
    | true =>
      have hsigned : isSigned (number x) = true := by
        simp [isSigned, isNegativeNumber, hneg, hnan]
      have htight : tight (number x) = strength .pow := if_pos hsigned
      have hnormal : (number x).normal = unary .minus (number x.abs) := by
        simp [normal, Double.normalExpr, hnan, hneg]
      rw [hneg] at htext
      refine ⟨?_, fun _ hnot => absurd hsigned (Bool.eq_false_iff.mp hnot)⟩
      rw [htext, hnormal, htight]
      exact Reads.signed .minus (hunsigned.reads : Reads strict _ _ (strength .pow) (strength .pow)) (Nat.le_refl _)
        (Nat.le_refl _)
    | false =>
      apply ReadsBack.of_primary
      have habs : x.abs = x := by
        have hx := Double.ofMagnitude_isNegative_magnitude x
        rw [hneg] at hx
        exact hx
      have hnormal : (number x).normal = number x := by
        simp [normal, Double.normalExpr, hnan, hneg]
      rw [hneg] at htext
      rw [htext, hnormal]
      rw [habs] at hunsigned
      exact hunsigned

/-- Arguments are written one by one. -/
theorem argChars_eq_map (args : List Expr) : argChars args = args.map fun e => e.argument e.chars := by
  induction args with
  | nil => rfl
  | cons e es ih => rw [argChars, ih, List.map_cons]

/-- The arguments of an aggregation are written like those of a call. -/
theorem paramChars_append (param : Option Expr) (e : Expr) :
    paramChars param ++ e.argument e.chars =
      [',', ' '].intercalate ((param.toList ++ [e]).map fun c => c.argument c.chars) := by
  cases param with
  | none => simp [paramChars]
  | some p => simp [paramChars]

/-- The operand behind a bare keyword is not taken for its labels. -/
theorem leavesOperand_right {op : BinaryOp} {l r : Expr} {m : Matching} (hlabels : r.NotLabels)
    (hclear : strict = true → BareClear (binary op l r m)) (hside : m.side.isSome = true)
    (hempty : m.carried = []) (rest : List Char) :
    LeavesOperand strict (operandChars op .right r ++ rest) := by
  intro after hafter
  constructor
  · cases strict with
    | false => rfl
    | true =>
      obtain ⟨hparens, hopens⟩ := hclear rfl hside hempty
      obtain ⟨c, cs, hcs, -, -⟩ := hlabels.starts
      have hhead : r.chars.head? = some '(' := by
        rw [operandChars, hparens, parenthesizedIf, if_neg Bool.false_ne_true, hcs] at hafter
        rw [hcs, (List.cons.inj hafter).1]
        rfl
      rw [head?_chars_eq_paren_iff, hopens] at hhead
      cases hhead
  · cases hneeds : operandNeedsParens op .right r with
    | true =>
      have hchars : operandChars op .right r ++ rest = '(' :: (r.chars ++ ')' :: rest) := by
        simp [operandChars, hneeds, parenthesizedIf, parenthesized]
      rw [hchars] at hafter
      obtain ⟨-, rfl⟩ := List.cons.inj hafter
      obtain ⟨c, cs, hcs, hblank, hclose⟩ := hlabels.starts
      have hunlisted := hlabels.compound (bodyNeedsParens_of_operandNeedsParens hneeds) (')' :: rest)
      refine hunlisted.readList_eq_none ⟨c, cs ++ ')' :: rest, ?_, hblank, hclose⟩
      rw [hcs, List.cons_append]
    | false =>
      rw [operandChars, hneeds, parenthesizedIf, if_neg Bool.false_ne_true] at hafter
      exact hlabels.inside rest after hafter

/-- A binary operation is read back if its operands are and its right one is not taken for labels. -/
theorem readsBack_binary {op : BinaryOp} {l r : Expr} {m : Matching}
    (hlegible : Legible (binary op l r m)) (hlabels : r.NotLabels)
    (hclear : strict = true → BareClear (binary op l r m)) (hl : l.ReadsBack strict)
    (hr : r.ReadsBack strict) : ReadsBack strict (binary op l r m) := by
  obtain ⟨hlText, hrText, hscope, hcarried⟩ := hlegible
  obtain ⟨leftLevel, leftTight, hleft, hll, hlt⟩ := hl.left hlText op
  obtain ⟨rightLevel, rightTight, hright, hrl, hrt⟩ := hr.right hrText op
  refine ⟨?_, fun hnot _ => nomatch hnot⟩
  refine Reads.binary op hleft hright hll hlt hrl hrt hscope hcarried ?_
  intro hside hempty rest _
  exact leavesOperand_right hlabels hclear hside hempty rest

/-- A legible expression is read back. -/
theorem readsBack_of_legible {e : Expr} (h : e.All Legible) (hclear : strict = true → e.All BareClear) :
    e.ReadsBack strict := by
  induction e using childInduction with
  | node e ih =>
    have hroot := h.root
    have hbelow : ∀ c ∈ e.children, c.ReadsBack strict := by
      intro c hc
      exact ih c hc (h.child c hc) (fun hs => (hclear hs).child c hc)
    have hitem : ∀ c ∈ e.children, ∃ level tight, 1 ≤ level ∧
        Reads strict (c.argument c.chars) c.normal level tight := by
      intro c hc
      exact ⟨c.level, c.tight, c.one_le_level, (hbelow c hc).reads⟩
    cases e with
    | number x => exact readsBack_number x
    | text s => exact .of_primary (readsPrimary_quote s)
    | selector s =>
      obtain ⟨hmetric, hnames, hrange, hoffset, hinstant⟩ := hroot
      exact .of_primary (readsPrimary_selector hmetric hnames hrange hoffset hinstant)
    | subquery body w =>
      obtain ⟨htext, hsome, hrange, hresolution, hoffset, hinstant⟩ := hroot
      have hbody := (hbelow body List.mem_cons_self).body htext
      exact .of_primary (hbody.subquery hsome hrange hresolution hoffset hinstant)
    | unary op e =>
      have hsigned := (hbelow e List.mem_cons_self).signed hroot op
      exact ⟨hsigned, fun _ hnot => nomatch hnot⟩
    | aggregation op e param g =>
      have hargs := readsPrimary_aggregation op hroot.1 hroot.2
        (fun c hc => hitem c (by simpa [children, or_comm] using hc))
      apply ReadsBack.of_primary
      rw [← paramChars_append, ← normalParam_eq_map, ← List.append_assoc] at hargs
      exact hargs
    | binary op l r m =>
      have hr : r ∈ (binary op l r m).children := List.mem_cons_of_mem _ List.mem_cons_self
      exact readsBack_binary hroot (notLabels_of_legible (h.child r hr) hroot.2.1)
        (fun hs => (hclear hs).root) (hbelow l List.mem_cons_self) (hbelow r hr)
    | call f args =>
      have hcall := readsPrimary_call hroot hitem
      apply ReadsBack.of_primary
      rw [children, ← argChars_eq_map, ← normalArgs_eq_map] at hcall
      exact hcall

/-! ## Whole queries -/

/-- The text of a legible expression is read as its normal form. -/
theorem read_chars (e : Expr) (h : e.All Legible) (htext : e.isText = false)
    (hclear : strict = true → e.All BareClear) : Query.read strict e.chars = some e.normal := by
  have hreads : Reads strict e.chars e.normal e.level e.tight :=
    (readsBack_of_legible h hclear).chars htext
  have hexpr := hreads.readExpr_eq e.one_le_level .done .done
  rw [List.append_nil] at hexpr
  unfold Query.read
  rw [hexpr]
  rfl

/-- The text of a legible tree is read back as the tree in normal form, which is the tree itself when it
holds nothing that is written like something else. A strict reader does the same when no parenthesis
follows a bare keyword. -/
theorem read_render_eq_normal (e : Expr) (h : e.All Legible) (htext : e.isText = false) :
    Query.read false e.render.toList = some e.normal ∧
    (e.All BareClear → Query.read true e.render.toList = some e.normal) ∧
    (e.All IsNormal → e.normal = e) := by
  have hrender : e.render.toList = e.chars := String.toList_ofList
  rw [hrender]
  refine ⟨read_chars e h htext nofun, ?_, normal_eq_self⟩
  intro hclear
  exact read_chars e h htext fun _ => hclear

/-- A share of failed requests, scaled by a power with a sign in its exponent and paired with a sum that
holds a subquery. -/
def failureShare : Expr :=
  binary .div
    (aggregation .sum
      (call "rate" [selector { metric := "requests", matchers := [⟨"code", "5..", .regexp⟩], range := some "5m" }])
      none { keep := ["job"] })
    (binary .add
      (unary .minus (binary .pow (selector { metric := "a" }) (number (.infinity true)) {}))
      (subquery (selector { metric := "b", offset := some "1h" })
        { range := some "1d", resolution := some "5m" }) {})
    { scope := some .onLabels, labels := ["job"], side := some .left, carried := ["team"] }

/-- A quotient of sums with a matching, a negative power and a subquery. -/
theorem read_render_failureShare :
    failureShare.All Legible ∧ failureShare.isText = false ∧
    failureShare.render =
      "sum by (job) (rate(requests\x7bcode=~\"5..\"\x7d[5m])) / on(job) group_left(team) " ++
        "(-(a ^ -Inf) + (b offset 1h)[1d:5m])" ∧
    Query.read false failureShare.render.toList = some failureShare.normal := by
  have hlegible : failureShare.All Legible := by
    apply All.pair (by decide) rfl
    · apply All.only (by decide) rfl
      apply All.only (by decide) rfl
      exact .leaf (by decide) rfl
    · apply All.pair (by decide) rfl
      · apply All.only (by decide) rfl
        exact .pair (by decide) rfl (.leaf (by decide) rfl) (.leaf (by decide) rfl)
      · apply All.only (by decide) rfl
        exact .leaf (by decide) rfl
  exact ⟨hlegible, rfl, by decide, (read_render_eq_normal failureShare hlegible rfl).1⟩

end Expr

end MetricQuery
