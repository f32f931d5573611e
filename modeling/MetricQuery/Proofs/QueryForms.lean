import MetricQuery.Expr.Render
import MetricQuery.Proofs.NormalForm
import MetricQuery.Proofs.QueryLexing

/-!
# Parts of query text

Modifiers, matchers, label clauses and the pairing of a binary operation: each is read back from what the
writer makes of it, in its normal form where the writer leaves something out. Together with the lists of
labels these are the parts of a query that hold no expressions.
-/

set_option autoImplicit false

namespace MetricQuery.Query

variable {c : Char} {text rest : List Char} {e e' : Expr}

/-! ## Modifiers -/

/-- A modifier that can be read back: a word of letters, digits, `_` and `.`, or one of the two calls that
stand for a time. -/
def isModifier (s : String) : Bool :=
  decide (s = "start()") || decide (s = "end()") || (decide (s ≠ "") && s.toList.all isModifierChar)

/-- A modifier that counts can be read back. -/
def Modifies (modifier : Option String) : Prop :=
  ∀ s ∈ present modifier, isModifier s = true

instance (modifier : Option String) : Decidable (Modifies modifier) :=
  inferInstanceAs (Decidable (∀ s ∈ present modifier, isModifier s = true))

/-- The characters that would run on with a modifier. -/
def runsOnModifier (c : Char) : Bool :=
  isModifierChar c || decide (c = '(')

/-- What ends a word ends a modifier. -/
theorem Breaks.stops_modifier (h : Breaks rest) : Stops runsOnModifier rest :=
  h.stops rfl rfl rfl rfl

/-- A modifier is read up to where it stops. -/
theorem readModifier_append {s : String} (hs : isModifier s = true) (h : Stops runsOnModifier rest) :
    readModifier (s.toList ++ rest) = some (s, rest) := by
  have hstop : Stops isModifierChar rest :=
    h.imp fun c hc => by rw [runsOnModifier, hc, Bool.true_or]
  simp only [isModifier, Bool.or_eq_true, decide_eq_true_eq, Bool.and_eq_true, List.all_eq_true] at hs
  rcases hs with (rfl | rfl) | ⟨hne, hword⟩
  · rfl
  · rfl
  · have hnil : s.toList ≠ [] := by
      rw [ne_eq, String.toList_eq_nil_iff]
      exact hne
    unfold readModifier
    simp only [takeWhile_append_of_stops hword hstop, dropWhile_append_of_stops hword hstop, if_neg hnil,
      String.ofList_toList]
    -- A parenthesis behind the word would make a call of it.
    split
    · exact nomatch stops_cons.mp h
    · rfl

/-- No white space is skipped before a modifier. -/
theorem skip_modifier {s : String} (hs : isModifier s = true) :
    skip (s.toList ++ rest) = s.toList ++ rest := by
  simp only [isModifier, Bool.or_eq_true, decide_eq_true_eq, Bool.and_eq_true, List.all_eq_true] at hs
  rcases hs with (rfl | rfl) | ⟨hne, hword⟩
  · rfl
  · rfl
  · cases hcs : s.toList with
    | nil => exact absurd (String.toList_eq_nil_iff.mp hcs) hne
    | cons c cs =>
      have hc : isModifierChar c = true := hword c (by rw [hcs]; exact List.mem_cons_self)
      exact skip_cons_of_not_blank (isBlank_eq_false_of_class hc rfl rfl rfl rfl)

/-! ## Postfix forms -/

/-- A written range is read. -/
theorem readPostfix_range {s : String} (hs : isModifier s = true) :
    readPostfix ('[' :: (s.toList ++ ']' :: rest)) = some (.range s, rest) := by
  have hstop : Stops runsOnModifier (']' :: rest) := stops_cons.mpr rfl
  change readBracket (s.toList ++ ']' :: rest) = _
  unfold readBracket
  rw [skip_modifier hs, readModifier_append hs hstop]
  rfl

/-- A written window is read, with its resolution if it has one. -/
theorem readPostfix_window {s : String} (hs : isModifier s = true) {resolution : Option String}
    (hres : Modifies resolution) :
    readPostfix ('[' :: (s.toList ++ ':' :: (modifierText resolution id ++ ']' :: rest))) =
      some (.window s (present resolution), rest) := by
  have hcolon : ∀ t : List Char, Stops runsOnModifier (':' :: t) := fun t => stops_cons.mpr rfl
  have hstop : Stops runsOnModifier (']' :: rest) := stops_cons.mpr rfl
  change readBracket (s.toList ++ ':' :: _) = _
  unfold readBracket
  rw [skip_modifier hs, readModifier_append hs (hcolon _), Option.bind_eq_bind, Option.bind_some]
  simp only [skip_cons_of_not_blank (show isBlank ':' = false from rfl)]
  unfold modifierText
  cases hpresent : present resolution with
  | none => rfl
  | some r =>
    have hr : isModifier r = true := hres r hpresent
    simp only [id_eq, skip_modifier hr]
    -- The resolution does not begin with the closing bracket.
    split
    · rename_i after hafter
      have hread := readModifier_append hr hstop
      rw [hafter] at hread
      cases hread
    · rw [readModifier_append hr hstop, Option.bind_eq_bind, Option.bind_some, expect_cons rfl]
      rfl

/-- A written offset is read. -/
theorem readPostfix_offset {s : String} (hs : isModifier s = true) (h : Stops runsOnModifier rest) :
    readPostfix (" offset ".toList ++ s.toList ++ rest) = some (.offset s, rest) := by
  have hmodifier := readModifier_append hs h
  rw [List.append_assoc]
  change (readModifier (skip (s.toList ++ rest))).bind _ = _
  rw [skip_modifier hs, hmodifier]
  rfl

/-- A written instant is read. -/
theorem readPostfix_instant {s : String} (hs : isModifier s = true) (h : Stops runsOnModifier rest) :
    readPostfix (" @ ".toList ++ s.toList ++ rest) = some (.instant s, rest) := by
  have hmodifier := readModifier_append hs h
  rw [List.append_assoc]
  change (readModifier (skip (s.toList ++ rest))).bind _ = _
  rw [skip_modifier hs, hmodifier]
  rfl

/-- Postfixes end where there is none. -/
theorem readPostfixes_none (h : readPostfix text = none) : readPostfixes e text = some (e, text) := by
  rw [readPostfixes, h]

/-- One postfix form is taken into the node before it. -/
theorem readPostfixes_step {form : Postfix} (h : readPostfix text = some (form, rest))
    (hshort : rest.length < text.length) (hattach : form.attach e = some e') :
    readPostfixes e text = readPostfixes e' rest := by
  rw [readPostfixes, h]
  simp only [if_pos hshort, hattach]
  rfl

/-- The text of a modifier behind a node, whether it counts or not. -/
theorem readPostfixes_modifierText {modifier : Option String} {write : List Char → List Char}
    (form : String → Postfix) (node : Option String → Expr)
    (hread : ∀ s ∈ present modifier, readPostfix (write s.toList ++ rest) = some (form s, rest))
    (hwrite : ∀ s, write s ≠ [])
    (hattach : ∀ s, (form s).attach (node none) = some (node (some s))) :
    readPostfixes (node none) (modifierText modifier write ++ rest) =
      readPostfixes (node (present modifier)) rest := by
  unfold modifierText
  cases hpresent : present modifier with
  | none => rfl
  | some s =>
    refine readPostfixes_step (hread s hpresent) ?_ (hattach s)
    have hpos := List.length_pos_iff.mpr (hwrite s.toList)
    simp only [List.length_append]
    omega

/-- What holds of a modifier's text with something behind it, and of what is behind it, holds whether the
modifier counts or not. -/
theorem modifierText_append_of {P : List Char → Prop} {modifier : Option String}
    {write : List Char → List Char} (hwrite : ∀ s, P (write s ++ rest)) (h : P rest) :
    P (modifierText modifier write ++ rest) := by
  unfold modifierText
  split
  · exact hwrite _
  · exact h

/-- The time modifiers behind a node that has none yet. -/
theorem readPostfixes_timeModifiers {offset instant : Option String} (hoffset : Modifies offset)
    (hinstant : Modifies instant) (node : Option String → Option String → Expr)
    (hattachOffset : ∀ s, (Postfix.offset s).attach (node none none) = some (node (some s) none))
    (hattachInstant : ∀ o s, (Postfix.instant s).attach (node o none) = some (node o (some s)))
    (h : Stops runsOnModifier rest) :
    readPostfixes (node none none) (timeModifiers offset instant ++ rest) =
      readPostfixes (node (present offset) (present instant)) rest := by
  unfold timeModifiers
  rw [List.append_assoc]
  rw [readPostfixes_modifierText .offset (fun o => node o none)]
  · exact readPostfixes_modifierText .instant (node (present offset))
      (fun s hs => readPostfix_instant (hinstant s hs) h) (fun s => List.cons_ne_nil _ _)
      (hattachInstant _)
  · intro s hs
    exact readPostfix_offset (hoffset s hs) (modifierText_append_of (fun t => stops_cons.mpr rfl) h)
  · exact fun s => List.cons_ne_nil _ _
  · exact hattachOffset

/-- What stands behind the matchers of a selector. -/
theorem readPostfixes_selector {s : Selector} (hrange : Modifies s.range) (hoffset : Modifies s.offset)
    (hinstant : Modifies s.instant) (h : Stops runsOnModifier rest) :
    readPostfixes (.selector { metric := s.metric, matchers := s.matchers })
        (modifierText s.range (fun r => '[' :: (r ++ [']'])) ++
          (timeModifiers s.offset s.instant ++ rest)) =
      readPostfixes (.selector s.normal) rest := by
  let node : Option String → Option String → Option String → Expr := fun r o i =>
    .selector { metric := s.metric, matchers := s.matchers, range := r, offset := o, instant := i }
  have hranged : readPostfixes (node none none none)
      (modifierText s.range (fun r => '[' :: (r ++ [']'])) ++
        (timeModifiers s.offset s.instant ++ rest)) =
      readPostfixes (node (present s.range) none none) (timeModifiers s.offset s.instant ++ rest) := by
    refine readPostfixes_modifierText .range (fun r => node r none none) ?_
      (fun r => List.cons_ne_nil _ _) (fun r => rfl)
    intro r hr
    rw [List.cons_append, List.append_assoc]
    exact readPostfix_range (hrange r hr)
  refine hranged.trans ?_
  exact readPostfixes_timeModifiers hoffset hinstant (node (present s.range)) (fun o => rfl)
    (fun o i => rfl) h

/-- What stands behind the body of a subquery that has a range. -/
theorem readPostfixes_window {w : Window} (hsome : (present w.range).isSome = true)
    (hrange : Modifies w.range) (hresolution : Modifies w.resolution) (hoffset : Modifies w.offset)
    (hinstant : Modifies w.instant) (h : Stops runsOnModifier rest) :
    readPostfixes e (w.chars ++ rest) = readPostfixes (.subquery e w.normal) rest := by
  obtain ⟨r, hr⟩ := Option.isSome_iff_exists.mp hsome
  have hchars : w.chars ++ rest = '[' :: (r.toList ++ ':' :: (modifierText w.resolution id ++ ']' ::
      (timeModifiers w.offset w.instant ++ rest))) := by
    unfold Window.chars
    rw [modifierText, hr]
    simp
  let node : Option String → Option String → Expr := fun o i =>
    .subquery e { range := some r, resolution := present w.resolution, offset := o, instant := i }
  have hnormal : Expr.subquery e w.normal = node (present w.offset) (present w.instant) := by
    unfold Window.normal
    rw [hr]
    rfl
  rw [hchars, hnormal, readPostfixes_step (readPostfix_window (hrange r hr) hresolution) (by simp; omega) rfl]
  exact readPostfixes_timeModifiers hoffset hinstant node (fun o => rfl) (fun o i => rfl) h

/-! ## Matchers -/

/-- The operator of a matcher is read up to the quote of its value. -/
theorem readMatchOp_append (op : MatchOp) {value : List Char} :
    readMatchOp (op.symbol.toList ++ '"' :: value) = some (op, '"' :: value) := by
  cases op <;> rfl

/-- A written matcher is read. -/
theorem readMatcher_append {m : Matcher} (hname : isIdentifier m.name = true) :
    readMatcher (m.chars ++ rest) = some (m, rest) := by
  have hquote : Quoted.quote m.value.toList ++ rest =
      '"' :: (Quoted.body m.value.toList ++ ['"'] ++ rest) := rfl
  have hop : ∀ t : List Char, Stops isNameChar (m.op.symbol.toList ++ t) ∧
      skip (m.op.symbol.toList ++ t) = m.op.symbol.toList ++ t := by
    intro t
    cases m.op <;> exact ⟨stops_cons.mpr rfl, skip_cons_of_not_blank rfl⟩
  unfold readMatcher Matcher.chars
  rw [List.append_assoc, List.append_assoc, readLabel_append hname (hop _).1]
  simp only [Option.bind_eq_bind, Option.bind_some]
  rw [(hop _).2, hquote, readMatchOp_append, ← hquote]
  simp only [Option.bind_some]
  have hskip : skip (Quoted.quote m.value.toList ++ rest) = Quoted.quote m.value.toList ++ rest :=
    skip_cons_of_not_blank rfl
  rw [hskip, Quoted.scanString_quote, Option.bind_some, String.ofList_toList]

/-- The matchers between the braces of a selector. -/
theorem readList_matchers {ms : List Matcher} (hnames : ∀ m ∈ ms, isIdentifier m.name = true) :
    readList readMatcher '}' ([','].intercalate (ms.map Matcher.chars) ++ '}' :: rest) =
      some (ms, rest) := by
  have hitems : ∀ m ∈ ms, ReadsItem readMatcher '}'
      (([','].intercalate (ms.map Matcher.chars) ++ '}' :: rest).length + 1) m.chars (id m) := by
    intro m hm
    obtain ⟨c, cs, hcs, hc, -⟩ := exists_cons_of_isIdentifier (hnames m hm)
    refine ⟨⟨c, cs ++ m.op.symbol.toList ++ Quoted.quote m.value.toList, ?_,
      isBlank_eq_false_of_isNameStart hc, ne_of_class hc rfl⟩, ?_⟩
    · unfold Matcher.chars
      rw [hcs]
      rfl
    · intro after _ _
      exact readMatcher_append (hnames m hm)
  have hlist := readList_intercalate [] rfl (by simp) nofun hitems (Nat.lt_succ_self _)
  rw [List.map_id] at hlist
  exact hlist

/-! ## Label clauses -/

/-- A word at the head of a text, after a blank. -/
theorem word_skip_space {name : String} (hname : isIdentifier name = true) (h : Stops isNameChar rest) :
    word (skip (' ' :: (name.toList ++ rest))) = name ∧
      afterWord (skip (' ' :: (name.toList ++ rest))) = rest := by
  obtain ⟨-, -, -, -, hchars⟩ := exists_cons_of_isIdentifier hname
  rw [skip_space, skip_identifier_append hname]
  exact ⟨word_append hchars h, afterWord_append hchars h⟩

/-- Without its keyword a clause has no labels. -/
theorem readClause_none {keyword : String} (h : word (skip text) ≠ keyword) :
    readClause keyword text = some ([], text) :=
  if_neg h

/-- A clause is read with its keyword and its labels. -/
theorem readClause_append {keyword : String} (hkeyword : isIdentifier keyword = true)
    {labels : List String} (hlabels : ∀ l ∈ labels, isIdentifier l = true)
    (htext : skip text =
      skip (' ' :: (keyword.toList ++ ' ' :: (parenthesized (labelList labels) ++ rest)))) :
    readClause keyword text = some (labels, rest) := by
  have hword := word_skip_space hkeyword (stops_cons.mpr rfl : Stops isNameChar
    (' ' :: (parenthesized (labelList labels) ++ rest)))
  unfold readClause
  rw [htext, if_pos hword.1, hword.2]
  -- The blank before the parenthesis is skipped with the others.
  exact readLabels_append hlabels

/-! ## Operators and pairings -/

/-- Operators bind as strongly for the reader as for the writer. -/
theorem strength_eq_precedence (op : BinaryOp) : strength op = op.precedence := by
  cases op <;> rfl

/-- A written operator is read. -/
theorem readOperator_append (op : BinaryOp) :
    readOperator (' ' :: (op.symbol.toList ++ ' ' :: text)) = some (op, ' ' :: text) := by
  cases op <;> rfl

/-- The labels that a matching is on are read, in their normal form. -/
theorem readScope_append {m : Matching} (hlabels : m.scope.isSome → ∀ l ∈ m.labels, isIdentifier l = true)
    (hfree : scopeWords.lookup (word (skip text)) = none) :
    readScope (' ' :: (m.scopeChars ++ text)) =
      some ((m.normal.scope, m.normal.labels), ' ' :: text) := by
  unfold readScope Matching.scopeChars Matching.normal
  cases hscope : m.scope with
  | none =>
    simp only [List.nil_append, skip_space, hfree]
    rfl
  | some scope =>
    have hkeyword : isIdentifier scope.keyword = true ∧
        scopeWords.lookup scope.keyword = some scope := by
      cases scope <;> exact ⟨rfl, rfl⟩
    have hafter : Stops isNameChar (parenthesized (labelList m.labels) ++ ([' '] ++ text)) :=
      stops_cons.mpr rfl
    have hword := word_skip_space hkeyword.1 hafter
    have hidentifiers := hlabels (by rw [hscope]; rfl)
    simp only [List.append_assoc, hword.1, hword.2, hkeyword.2, readLabels_append hidentifiers,
      Option.bind_eq_bind, Option.bind_some, Option.isSome_some, if_true]
    rfl

/-- `strict` readers take every parenthesis behind a bare keyword for labels, and lenient ones those in which
labels stand. -/
def LeavesOperand (strict : Bool) (text : List Char) : Prop :=
  ∀ after, text = '(' :: after → strict = false ∧ readList readLabel ')' after = none

/-- The side of a matching and the labels that it carries are read, in their normal form. -/
theorem readSide_append {strict : Bool} {m : Matching}
    (hcarried : m.side.isSome → ∀ l ∈ m.carried, isIdentifier l = true)
    (hfree : sideWords.lookup (word (skip text)) = none)
    (hbare : m.side.isSome → m.carried = [] → LeavesOperand strict (skip text)) :
    readSide strict (' ' :: (m.sideChars ++ text)) =
      some ((m.normal.side, m.normal.carried), ' ' :: text) := by
  unfold readSide Matching.sideChars Matching.normal
  cases hside : m.side with
  | none =>
    simp only [List.nil_append, skip_space, hfree]
    rfl
  | some side =>
    have hisSome : m.side.isSome = true := by rw [hside]; rfl
    have hkeyword : isIdentifier side.keyword = true ∧ sideWords.lookup side.keyword = some side := by
      cases side <;> exact ⟨rfl, rfl⟩
    by_cases hempty : m.carried = []
    · have hword := word_skip_space hkeyword.1 (stops_cons.mpr rfl : Stops isNameChar (' ' :: text))
      simp only [hempty, if_true, List.append_nil, List.append_assoc, List.cons_append, List.nil_append,
        hword.1, hword.2, hkeyword.2, ite_self]
      rw [skip_space]
      -- No labels are written, so what follows is the operand.
      split
      · rename_i after hafter
        obtain ⟨hstrict, hlabels⟩ := hbare hisSome hempty after hafter
        rw [hlabels, hstrict]
        rfl
      · rfl
    · have hafter : Stops isNameChar (parenthesized (labelList m.carried) ++ ([' '] ++ text)) :=
        stops_cons.mpr rfl
      have hword := word_skip_space hkeyword.1 hafter
      have hlabels : readList readLabel ')' (labelList m.carried ++ [')'] ++ ([' '] ++ text)) =
          some (m.carried, [' '] ++ text) := readLabels_append (hcarried hisSome)
      simp only [if_neg hempty, List.append_assoc, hword.1, hword.2, hkeyword.2, Option.isSome_some, if_true]
      have hopen : skip (parenthesized (labelList m.carried) ++ ([' '] ++ text)) =
          '(' :: (labelList m.carried ++ [')'] ++ ([' '] ++ text)) := rfl
      simp only [hopen, hlabels]
      rfl

/-- The pairing of a binary operation, behind its operator. What follows must not begin with a keyword of
pairings, and it must be left alone when the labels of the last keyword are missing. -/
theorem readMatching_append {strict : Bool} {m : Matching}
    (hlabels : m.scope.isSome → ∀ l ∈ m.labels, isIdentifier l = true)
    (hcarried : m.side.isSome → ∀ l ∈ m.carried, isIdentifier l = true)
    (hscope : scopeWords.lookup (word (skip text)) = none)
    (hside : sideWords.lookup (word (skip text)) = none)
    (hbare : m.side.isSome → m.carried = [] → LeavesOperand strict (skip text)) :
    readMatching strict (' ' :: (m.chars ++ text)) = some (m.normal, ' ' :: text) := by
  have hnext : scopeWords.lookup (word (skip (m.sideChars ++ text))) = none := by
    unfold Matching.sideChars
    cases m.side with
    | none => exact hscope
    | some side =>
      have hkeyword : isIdentifier side.keyword = true ∧ scopeWords.lookup side.keyword = none := by
        cases side <;> exact ⟨rfl, rfl⟩
      have hafter : Stops isNameChar ((if m.carried = [] then [] else parenthesized (labelList m.carried))
          ++ ([' '] ++ text)) := by
        split <;> exact stops_cons.mpr rfl
      rw [List.append_assoc, List.append_assoc, ← skip_space, (word_skip_space hkeyword.1 hafter).1]
      exact hkeyword.2
  unfold readMatching Matching.chars
  rw [List.append_assoc, readScope_append hlabels hnext]
  simp only [Option.bind_eq_bind, Option.bind_some]
  rw [readSide_append hcarried hside hbare]
  rfl

end MetricQuery.Query
