import MetricQuery.Expr.Literal
import MetricQuery.Proofs.PrecedenceReading
import MetricQuery.Proofs.ShortestDecimal

/-!
# Reading primaries

Numbers, strings, selectors, calls and aggregations are read back as primaries, given that the expressions
inside them are read back. The arguments of calls and aggregations are lists of expressions, each read at
the weakest level.
-/

set_option autoImplicit false

namespace MetricQuery.Query

variable {strict : Bool} {text rest : List Char} {e : Expr} {n : Nat}

/-! ## Words -/

/-- An identifier that is no keyword of a matching opens an expression. -/
theorem Opens.of_identifier {name : String} (hname : isIdentifier name = true)
    (hscope : scopeWords.lookup name = none) (hside : sideWords.lookup name = none) :
    Opens name.toList := by
  obtain ⟨c, cs, hcs, hc, hchars⟩ := exists_cons_of_isIdentifier hname
  refine ⟨⟨c, cs, hcs, isBlank_eq_false_of_isNameStart hc, ne_of_class hc rfl⟩, ?_, ?_⟩
  · intro rest hrest
    rw [word_append hchars hrest]
    exact hscope
  · intro rest hrest
    rw [word_append hchars hrest]
    exact hside

/-- What begins with a word is a number, an aggregation, a call or a selector. -/
theorem readSigned_name {name : String} (hname : isIdentifier name = true) (h : Stops isNameChar rest)
    (inner : Nat → Reader Expr) : readSigned inner (name.toList ++ rest) =
      (readNamed inner name rest).bind fun (e, rest) => readPostfixes e rest := by
  obtain ⟨c, cs, hcs, hc, hchars⟩ := exists_cons_of_isIdentifier hname
  have hblank : isBlank c = false := isBlank_eq_false_of_isNameStart hc
  have hprimary : readPrimary inner (name.toList ++ rest) = readNamed inner name rest := by
    have hword := word_append hchars h
    have hafter := afterWord_append hchars h
    rw [hcs, List.cons_append] at hword hafter ⊢
    rw [readPrimary_of_ne hblank (ne_of_class hc rfl) (ne_of_class hc rfl), isDigit_eq_false_of_isNameStart hc,
      if_neg Bool.false_ne_true, if_pos hc, hword, hafter]
  rw [← hprimary, hcs, List.cons_append]
  exact readSigned_of_ne hblank (ne_of_class hc rfl) (ne_of_class hc rfl) inner

/-- What a name that is no keyword says to the reader. -/
theorem isName_spec {name : String} (h : isName name = true) :
    isIdentifier name = true ∧ keywords.contains name = false ∧ numberWord? name = none := by
  simp only [isName, Bool.and_eq_true, Bool.not_eq_true', Option.isNone_iff_eq_none] at h
  exact ⟨h.1.1, h.1.2, h.2⟩

/-- What is no keyword is not found among some of them. -/
theorem lookup_eq_none_of_not_keyword {α : Type} {table : List (String × α)} {name : String}
    (htable : ∀ w ∈ table.map Prod.fst, w ∈ keywords) (h : keywords.contains name = false) :
    table.lookup name = none := by
  rw [List.lookup_eq_none_iff]
  intro entry hentry
  have hmem : entry.1 ∈ keywords := htable _ (List.mem_map_of_mem hentry)
  rw [bne_iff_ne]
  rintro rfl
  rw [List.contains_iff_mem.mpr hmem] at h
  cases h

/-- A name opens an expression. -/
theorem opens_name {name : String} (h : isName name = true) : Opens name.toList := by
  obtain ⟨hidentifier, hkeyword, -⟩ := isName_spec h
  refine Opens.of_identifier hidentifier ?_ ?_
  · exact lookup_eq_none_of_not_keyword (by decide) hkeyword
  · exact lookup_eq_none_of_not_keyword (by decide) hkeyword

/-! ## Numbers and strings -/

/-- A word for a number is read as the number. -/
theorem readsPrimary_numberWord {name : String} {x : Double} (hname : isIdentifier name = true)
    (hnumber : numberWord? name = some x) (hopens : Opens name.toList) :
    ReadsPrimary strict name.toList (.number x) := by
  refine ⟨hopens, ?_⟩
  intro rest n hbreaks _
  rw [readSigned_name hname hbreaks.stops_name]
  unfold readNamed
  rw [hnumber]
  rfl

/-- A text that begins with a digit begins with no keyword. -/
theorem Opens.of_digit {c : Char} (hc : c.isDigit = true) : Opens (c :: text) := by
  have hblank : isBlank c = false := isBlank_eq_false_of_isDigit hc
  have hname : isNameChar c = true := by
    simp [isNameChar, Char.isAlphanum, hc]
  have hlookup : ∀ {α : Type} (table : List (String × α)) (rest : List Char),
      (table.all fun entry => entry.1.toList.head?.all fun d => !d.isDigit) = true →
      table.lookup (word (c :: text ++ rest)) = none := by
    intro α table rest htable
    rw [List.lookup_eq_none_iff]
    intro entry hentry
    rw [bne_iff_ne]
    intro heq
    have hstart := List.all_eq_true.mp htable entry hentry
    have hhead : entry.1.toList.head? = some c := by
      rw [← heq, word, String.toList_ofList, List.cons_append, List.takeWhile_cons, hname]
      rfl
    rw [hhead, Option.all_some, hc] at hstart
    cases hstart
  refine ⟨⟨c, text, rfl, hblank, ne_of_class hc rfl⟩, ?_, ?_⟩
  · intro rest _
    exact hlookup scopeWords rest rfl
  · intro rest _
    exact hlookup sideWords rest rfl

/-- The digits of a finite number. -/
theorem readsPrimary_queryDigits {x : Double} (hfinite : x.isFinite = true) :
    ReadsPrimary strict x.queryDigits (.number x.abs) := by
  obtain ⟨c, cs, hplain, hc⟩ := Decimal.exists_digit_cons_plain (x.shortest .up)
  have hdigits : x.queryDigits = c :: cs := by
    rw [Double.queryDigits_eq, hplain]
  have hchars : ∀ d ∈ x.queryDigits, isModifierChar d = true := by
    intro d hd
    rw [Double.queryDigits_eq] at hd
    rcases Decimal.isDigit_or_point_of_mem_plain hd with h | rfl
    · simp [isModifierChar, Char.isAlphanum, h]
    · rfl
  have hopens : Opens x.queryDigits := hdigits ▸ Opens.of_digit hc
  refine ⟨hopens, ?_⟩
  intro rest n hbreaks _
  have hstops : Stops isModifierChar rest := hbreaks.stops rfl rfl rfl rfl
  have hnumber : readNumber (x.queryDigits ++ rest) = some (.number x.abs, rest) := by
    unfold readNumber
    rw [takeWhile_append_of_stops hchars hstops, dropWhile_append_of_stops hchars hstops,
      Double.ofText?_queryDigits hfinite]
    rfl
  obtain ⟨d, ds, hds, hblank, -⟩ := hopens.starts
  obtain ⟨rfl, rfl⟩ := List.cons.inj (hds.symm.trans hdigits)
  have hprimary : readPrimary (below strict n) (x.queryDigits ++ rest) = some (.number x.abs, rest) := by
    rw [← hnumber, hds, List.cons_append]
    rw [readPrimary_of_ne hblank (ne_of_class hc rfl) (ne_of_class hc rfl), if_pos hc]
  rw [hds, List.cons_append] at hprimary ⊢
  rw [readSigned_of_ne hblank (ne_of_class hc rfl) (ne_of_class hc rfl), hprimary, Option.bind_some]

/-- A number without its sign. -/
def unsignedChars (x : Double) : List Char :=
  if x.isInfinite then "Inf".toList else x.queryDigits

/-- A number without its sign is read as its absolute value. -/
theorem readsPrimary_unsigned {x : Double} (hnan : x.isNaN = false) :
    ReadsPrimary strict (unsignedChars x) (.number x.abs) := by
  unfold unsignedChars
  split
  · rename_i hinf
    have habs : x.abs = .infinity false := by
      unfold Double.abs Double.infinity
      rw [of_decide_eq_true hinf]
    rw [habs]
    exact readsPrimary_numberWord rfl rfl (Opens.of_identifier rfl rfl rfl)
  · rename_i hinf
    have hnan' := of_decide_eq_false hnan
    simp only [Double.isInfinite, decide_eq_true_eq] at hinf
    exact readsPrimary_queryDigits (decide_eq_true (by omega))

/-- A number is written as its sign and what stands without it. -/
theorem toQuery_eq {x : Double} (hnan : x.isNaN = false) :
    x.toQuery = (if x.isNegative then ['-'] else []) ++ unsignedChars x := by
  unfold Double.toQuery unsignedChars
  rw [hnan]
  simp only [Bool.false_eq_true, if_false]
  split
  · split <;> rfl
  · rfl

/-- A quoted string. -/
theorem readsPrimary_quote (s : String) : ReadsPrimary strict (Quoted.quote s.toList) (.text s) := by
  have hopens : Opens (Quoted.quote s.toList) := Opens.cons rfl rfl (by decide)
  refine ⟨hopens, ?_⟩
  intro rest n _ _
  have hprimary : readPrimary (below strict n) (Quoted.quote s.toList ++ rest) = some (.text s, rest) := by
    change (Quoted.scanString (Quoted.quote s.toList ++ rest)).bind _ = _
    rw [Quoted.scanString_quote, Option.bind_some]
    simp only [String.ofList_toList]
  have hsigned : readSigned (below strict n) (Quoted.quote s.toList ++ rest) =
      (readPrimary (below strict n) (Quoted.quote s.toList ++ rest)).bind fun (e, rest) => readPostfixes e rest :=
    readSigned_of_ne rfl (by decide) (by decide) (below strict n)
  rw [hsigned, hprimary, Option.bind_some]

/-! ## Selectors -/

/-- A name that is no keyword begins a call if a parenthesis follows, and else a selector. -/
theorem readNamed_of_isName {name : String} (h : isName name = true) (inner : Nat → Reader Expr)
    (rest : List Char) : readNamed inner name rest =
      match skip rest with
      | '(' :: rest => do
        let (args, rest) ← readList (inner 1) ')' rest
        some (.call name args, rest)
      | '{' :: rest => do
        let (matchers, rest) ← readList readMatcher '}' rest
        some (.selector { metric := name, matchers := matchers }, rest)
      | _ => some (.selector { metric := name }, rest) := by
  obtain ⟨-, hkeyword, hnumber⟩ := isName_spec h
  have haggregator : aggregatorWords.lookup name = none :=
    lookup_eq_none_of_not_keyword (by decide) hkeyword
  unfold readNamed
  rw [hnumber, haggregator]
  show (if keywords.contains name = true then none else _) = _
  rw [hkeyword]
  exact if_neg Bool.false_ne_true

/-- A metric with its matchers is read as a selector. -/
theorem readNamed_selector {name : String} (hname : isName name = true) {ms : List Matcher}
    (hnames : ∀ m ∈ ms, isIdentifier m.name = true) (h : Breaks rest) (inner : Nat → Reader Expr) :
    readNamed inner name (Selector.matcherChars ms ++ rest) =
      some (.selector { metric := name, matchers := ms }, rest) := by
  rw [readNamed_of_isName hname]
  cases ms with
  | nil =>
    change (match skip rest with
      | '(' :: rest => _
      | '{' :: rest => _
      | _ => some (Expr.selector { metric := name }, rest)) = _
    -- Neither arguments nor matchers stand behind the name.
    split
    · rename_i after hafter
      exact absurd rfl (h.next '(' (by rw [hafter]; rfl)).1
    · rename_i after hafter
      exact absurd rfl (h.next '{' (by rw [hafter]; rfl)).2
    · rfl
  | cons m ms =>
    rw [Selector.matcherChars, List.cons_append, List.append_assoc]
    · change (readList readMatcher '}' _).bind _ = _
      rw [List.singleton_append, readList_matchers hnames]
      rfl
    · exact nofun

/-- Time modifiers end a word, or what follows them does. -/
theorem Breaks.timeModifiers {offset instant : Option String} (h : Breaks rest) :
    Breaks (timeModifiers offset instant ++ rest) := by
  unfold MetricQuery.timeModifiers
  rw [List.append_assoc]
  refine modifierText_append_of (fun s => .space rfl (by decide) (by decide)) ?_
  exact modifierText_append_of (fun s => .space rfl (by decide) (by decide)) h

/-- A written selector is read as its normal form. -/
theorem readsPrimary_selector {s : Selector} (hmetric : isName s.metric = true)
    (hnames : ∀ m ∈ s.matchers, isIdentifier m.name = true) (hrange : Modifies s.range)
    (hoffset : Modifies s.offset) (hinstant : Modifies s.instant) :
    ReadsPrimary strict s.chars (.selector s.normal) := by
  have hidentifier : isIdentifier s.metric = true := (isName_spec hmetric).1
  have hbreaks : ∀ rest, Breaks rest →
      Breaks (modifierText s.range (fun r => '[' :: (r ++ [']'])) ++
        (timeModifiers s.offset s.instant ++ rest)) := by
    intro rest h
    exact modifierText_append_of (fun r => .cons (.inr (.inr rfl))) h.timeModifiers
  have hstops : ∀ rest, Breaks rest → Stops isNameChar (Selector.matcherChars s.matchers ++
      (modifierText s.range (fun r => '[' :: (r ++ [']'])) ++
        (timeModifiers s.offset s.instant ++ rest))) := by
    intro rest h
    cases s.matchers with
    | nil => exact (hbreaks rest h).stops_name
    | cons m ms => exact stops_cons.mpr rfl
  constructor
  · have hopens := (opens_name hmetric).append (hstops [] .nil)
    simpa only [Selector.chars, List.append_assoc, List.append_nil] using hopens
  · intro rest n h _
    simp only [Selector.chars, List.append_assoc]
    rw [readSigned_name hidentifier (hstops rest h), readNamed_selector hmetric hnames (hbreaks rest h),
      Option.bind_some]
    exact readPostfixes_selector hrange hoffset hinstant h.stops_modifier

/-! ## Arguments -/

/-- An expression that is read is read as an item of a list. -/
theorem Reads.item {level tight : Nat} (h : Reads strict text e level tight) (hlevel : 1 ≤ level) :
    ReadsItem (below strict n 1) ')' n text e := by
  refine ⟨h.opens.starts, ?_⟩
  intro rest hrest hn
  rw [below_of_lt hn]
  have hfollow : ∀ limit, Follow limit rest := by
    intro limit
    cases rest with
    | nil => rcases hrest with h | h <;> cases h
    | cons c rest =>
      rcases hrest with h | h
      · exact .close (.inr (Option.some.inj h))
      · exact .close (.inl (Option.some.inj h))
  exact h.readExpr_eq hlevel (hfollow 1) (hfollow tight)

/-- The arguments between two parentheses, each read back. -/
theorem readList_args {es : List Expr} {shown : Expr → List Char}
    (hargs : ∀ e ∈ es, ∃ level tight, 1 ≤ level ∧ Reads strict (shown e) e.normal level tight)
    (hn : ([',', ' '].intercalate (es.map shown) ++ ')' :: rest).length < n) :
    readList (below strict n 1) ')' ([',', ' '].intercalate (es.map shown) ++ ')' :: rest) =
      some (es.map Expr.normal, rest) := by
  refine readList_intercalate [' '] rfl (by decide) (List.forall_mem_singleton.mpr rfl) ?_ hn
  intro e he
  obtain ⟨level, tight, hlevel, hreads⟩ := hargs e he
  exact hreads.item hlevel

/-- A written call is read as one of its normal arguments, if each argument is read. -/
theorem readsPrimary_call {f : String} (hf : isName f = true) {es : List Expr}
    {shown : Expr → List Char}
    (hargs : ∀ e ∈ es, ∃ level tight, 1 ≤ level ∧ Reads strict (shown e) e.normal level tight) :
    ReadsPrimary strict (f.toList ++ parenthesized ([',', ' '].intercalate (es.map shown)))
      (.call f (es.map Expr.normal)) := by
  constructor
  · exact (opens_name hf).append (stops_cons.mpr rfl)
  · intro rest n _ hn
    rw [List.append_assoc, parenthesized_append] at hn ⊢
    have hshort : ([',', ' '].intercalate (es.map shown) ++ ')' :: rest).length < n := by
      simp only [List.length_append, List.length_cons] at hn ⊢
      omega
    rw [readSigned_name (isName_spec hf).1 (stops_cons.mpr rfl), readNamed_of_isName hf,
      skip_cons_of_not_blank rfl]
    simp only [readList_args hargs hshort, Option.bind_eq_bind, Option.bind_some]

/-! ## Aggregations -/

/-- The labels that an aggregation keeps, the last of its clauses. -/
def keepChars (g : Grouping) : List Char :=
  if g.keep = [] then [] else " by (".toList ++ labelList g.keep ++ ") ".toList

/-- A grouping that drops no labels is written with those that it keeps. -/
theorem grouping_chars_of_drop_eq_nil {g : Grouping} (h : g.drop = []) : g.chars = keepChars g := by
  unfold Grouping.chars
  rw [if_pos h, List.nil_append]
  rfl

/-- One that drops some is written with these first. -/
theorem grouping_chars_of_drop_ne_nil {g : Grouping} (h : g.drop ≠ []) :
    g.chars = ' ' :: ("without".toList ++ ' ' :: (parenthesized (labelList g.drop) ++ ' ' :: keepChars g)) := by
  have hunfold : g.chars = " without (".toList ++ labelList g.drop ++ ") ".toList ++ keepChars g := by
    unfold Grouping.chars
    rw [if_neg h]
    rfl
  rw [hunfold]
  simp [parenthesized]

/-- The last clause of an aggregation, after any blanks. -/
theorem readClause_keep {g : Grouping} (hkeep : ∀ l ∈ g.keep, isIdentifier l = true)
    (htext : skip text = skip (keepChars g ++ '(' :: rest)) :
    ∃ after, readClause "by" text = some (g.keep, after) ∧ expect '(' after = some rest := by
  by_cases hempty : g.keep = []
  · have hskip : skip text = '(' :: rest := by
      rw [htext, keepChars, if_pos hempty]
      rfl
    refine ⟨text, ?_, ?_⟩
    · rw [hempty]
      refine readClause_none ?_
      rw [hskip]
      exact (by decide : "" ≠ "by")
    · unfold expect
      rw [hskip]
      rfl
  · refine ⟨' ' :: '(' :: rest, readClause_append rfl hkeep ?_, rfl⟩
    rw [htext, keepChars, if_neg hempty]
    simp [parenthesized]

/-- The labels between the name of an aggregation and its arguments. -/
theorem readClauses_append {g : Grouping} (hkeep : ∀ l ∈ g.keep, isIdentifier l = true)
    (hdrop : ∀ l ∈ g.drop, isIdentifier l = true) (rest : List Char) :
    ∃ middle after, readClause "without" (g.chars ++ '(' :: rest) = some (g.drop, middle) ∧
      readClause "by" middle = some (g.keep, after) ∧ expect '(' after = some rest := by
  by_cases hempty : g.drop = []
  · rw [grouping_chars_of_drop_eq_nil hempty, hempty]
    obtain ⟨after, hread, hexpect⟩ := readClause_keep hkeep (rfl : skip (keepChars g ++ '(' :: rest) = _)
    refine ⟨_, after, readClause_none ?_, hread, hexpect⟩
    unfold keepChars
    split
    · exact (by decide : "" ≠ "without")
    · exact (by decide : "by" ≠ "without")
  · obtain ⟨after, hread, hexpect⟩ :=
      readClause_keep hkeep (rfl : skip (' ' :: (keepChars g ++ '(' :: rest)) = _)
    refine ⟨_, after, readClause_append rfl hdrop ?_, hread, hexpect⟩
    rw [grouping_chars_of_drop_ne_nil hempty]
    simp only [List.cons_append, List.append_assoc]

/-- An aggregation writes its parameter before its operand. -/
theorem readsPrimary_aggregation (op : Aggregator) {g : Grouping}
    (hkeep : ∀ l ∈ g.keep, isIdentifier l = true) (hdrop : ∀ l ∈ g.drop, isIdentifier l = true)
    {param : Option Expr} {shown : Expr → List Char}
    (hargs : ∀ c ∈ param.toList ++ [e], ∃ level tight, 1 ≤ level ∧ Reads strict (shown c) c.normal level tight) :
    ReadsPrimary strict (op.symbol.toList ++ (g.chars ++
        parenthesized ([',', ' '].intercalate ((param.toList ++ [e]).map shown))))
      (.aggregation op e.normal (param.map Expr.normal) g) := by
  have hstops : ∀ after, Stops isNameChar (g.chars ++ '(' :: after) := by
    intro after
    by_cases hempty : g.drop = []
    · rw [grouping_chars_of_drop_eq_nil hempty]
      unfold keepChars
      split <;> exact stops_cons.mpr rfl
    · rw [grouping_chars_of_drop_ne_nil hempty]
      exact stops_cons.mpr rfl
  have hsymbol : isIdentifier op.symbol = true ∧ numberWord? op.symbol = none ∧
      aggregatorWords.lookup op.symbol = some op := by
    cases op <;> exact ⟨rfl, rfl, rfl⟩
  constructor
  · have hopens : Opens op.symbol.toList := by
      cases op <;> exact Opens.of_identifier rfl rfl rfl
    exact hopens.append (hstops _)
  · intro rest n _ hn
    rw [List.append_assoc, List.append_assoc, parenthesized_append] at hn ⊢
    have hshort : ([',', ' '].intercalate ((param.toList ++ [e]).map shown) ++ ')' :: rest).length <
        n := by
      simp only [List.length_append, List.length_cons] at hn ⊢
      omega
    obtain ⟨middle, after, hwithout, hby, hexpect⟩ := readClauses_append hkeep hdrop
      ([',', ' '].intercalate ((param.toList ++ [e]).map shown) ++ ')' :: rest)
    rw [readSigned_name hsymbol.1 (hstops _)]
    unfold readNamed
    rw [hsymbol.2.1, hsymbol.2.2]
    unfold readAggregation
    simp only [hwithout, hby, hexpect, readList_args hargs hshort, Option.bind_eq_bind, Option.bind_some]
    cases param <;> rfl

/-! ## Subqueries -/

/-- A subquery whose body is a primary is one itself. -/
theorem ReadsPrimary.subquery (h : ReadsPrimary strict text e) {w : Window}
    (hsome : (present w.range).isSome = true) (hrange : Modifies w.range)
    (hresolution : Modifies w.resolution) (hoffset : Modifies w.offset) (hinstant : Modifies w.instant) :
    ReadsPrimary strict (text ++ w.chars) (.subquery e w.normal) := by
  have hbreaks : ∀ rest, Breaks (w.chars ++ rest) := by
    intro rest
    obtain ⟨r, hr⟩ := Option.isSome_iff_exists.mp hsome
    unfold Window.chars
    rw [modifierText, hr]
    exact .cons (.inr (.inr rfl))
  constructor
  · refine h.opens.append ?_
    have hstops := (hbreaks []).stops_name
    rwa [List.append_nil] at hstops
  · intro rest n hrest hn
    rw [List.append_assoc] at hn ⊢
    rw [h.read _ n (hbreaks rest) hn]
    exact readPostfixes_window hsome hrange hresolution hoffset hinstant hrest.stops_modifier

end MetricQuery.Query
