import MetricQuery.Proofs.RenderRead

/-!
# Brackets and quotes of query text

A scan goes over a text from left to right and knows three things: which closing brackets are still to come,
which strings it has found, and whether it stands inside a string. A quote opens a string, a backslash in it
takes the next character with it, and the first quote without a backslash closes it. The scan fails at a
bracket that closes nothing or the wrong one.

Names and modifiers are written as they are given, so nothing can be said of a tree in which one of them holds a
quote or a stray bracket. Where they are `Plain`, the scan of the text finds the values of the matchers and
the strings that are arguments, whatever these hold, and nothing else: `scan_render`.

The text of a node is put together from the texts of its parts, and `Scans` is what a part keeps: it leaves the
scan as open as it was and adds its strings.
-/

set_option autoImplicit false

namespace MetricQuery

namespace Scan

/-! ## The scanner -/

/-- The bracket that closes the given one. -/
def closing? (c : Char) : Option Char :=
  if c = '(' then some ')'
  else if c = '[' then some ']'
  else if c = '{' then some '}'
  else none

/-- A character that closes a bracket. -/
def isClosing (c : Char) : Bool :=
  c = ')' || c = ']' || c = '}'

/-- The closing brackets that are awaited behind a character, the nearest first. -/
def pass (awaited : List Char) (c : Char) : Option (List Char) :=
  match closing? c with
  | some d => some (d :: awaited)
  | none =>
    if isClosing c then
      match awaited with
      | d :: awaited => if c = d then some awaited else none
      | [] => none
    else some awaited

/-- No quote, and brackets in pairs. -/
def Plain (s : String) : Prop :=
  '"' ∉ s.toList ∧ s.toList.foldlM pass [] = some []

instance (s : String) : Decidable (Plain s) :=
  inferInstanceAs (Decidable (_ ∧ _))

/-- Whether the scan stands in a string, and what was read of it. -/
inductive Mode where
  | outside
  | inside (value : List Char)
  /-- Behind a backslash. -/
  | escaped (value : List Char)
deriving DecidableEq

/-- How far the scanner is: the brackets that are open, the strings that were found, and where it stands. -/
structure State where
  awaited : List Char
  found : List String
  mode : Mode
deriving DecidableEq

/-- What one character does. -/
def step (s : State) (c : Char) : Option State :=
  match s.mode with
  | .outside =>
    if c = '"' then some { s with mode := .inside [] }
    else (pass s.awaited c).map fun awaited => { s with awaited := awaited }
  | .inside value =>
    if c = '"' then some { s with found := s.found ++ [String.ofList value], mode := .outside }
    else if c = '\\' then some { s with mode := .escaped value }
    else some { s with mode := .inside (value ++ [c]) }
  | .escaped value => (Quoted.unescape c).map fun d => { s with mode := .inside (value ++ [d]) }

/-- The strings of a text in which every string ends and every bracket has its partner. -/
def scan (text : List Char) : Option (List String) := do
  let s ← text.foldlM step ⟨[], [], .outside⟩
  if s.mode = .outside ∧ s.awaited = [] then some s.found else none

/-! ## Parts of a text -/

/-- Over the text the scan finds the given strings, and awaits behind it what it awaited before. -/
def Scans (text : List Char) (strings : List String) : Prop :=
  ∀ awaited found, text.foldlM step ⟨awaited, found, .outside⟩ =
    some ⟨awaited, found ++ strings, .outside⟩

variable {a b text : List Char} {xs ys : List String} {c : Char}

/-- A text that scans by itself has the strings that were found in it. -/
theorem Scans.scan_eq (h : Scans text xs) : scan text = some xs := by
  unfold scan
  rw [h [] []]
  rfl

/-- The empty text scans, with no strings. -/
theorem Scans.nil : Scans [] [] := by
  intro awaited found
  rw [List.append_nil]
  rfl

/-- Texts scan one behind the other, and so do their strings stand. -/
theorem Scans.append (ha : Scans a xs) (hb : Scans b ys) : Scans (a ++ b) (xs ++ ys) := by
  intro awaited found
  rw [List.foldlM_append, ha, ← List.append_assoc]
  exact hb awaited (found ++ xs)

/-- A text without strings behind another adds none. -/
theorem Scans.append_nil (ha : Scans a xs) (hb : Scans b []) : Scans (a ++ b) xs := by
  have hboth := ha.append hb
  rwa [List.append_nil] at hboth

/-- A character that is neither a quote nor a bracket. -/
def isHarmless (c : Char) : Bool :=
  decide (c ≠ '"') && (closing? c).isNone && !isClosing c

/-- Digits neither open nor close anything. -/
theorem isHarmless_of_isDigit (h : c.isDigit = true) : isHarmless c = true := by
  have hne : ∀ d, d.isDigit = false → c ≠ d := fun d hd => ne_of_class h hd
  simp [isHarmless, closing?, isClosing, hne]

/-- A harmless character outside of strings leaves the scanner as it is. -/
theorem step_of_harmless (h : isHarmless c = true) (awaited : List Char) (found : List String) :
    step ⟨awaited, found, .outside⟩ c = some ⟨awaited, found, .outside⟩ := by
  simp only [isHarmless, Bool.and_eq_true, decide_eq_true_eq, Option.isNone_iff_eq_none,
    Bool.not_eq_true'] at h
  obtain ⟨⟨hquote, hopen⟩, hclose⟩ := h
  have hpass : pass awaited c = some awaited := by
    unfold pass
    rw [hopen, hclose]
    rfl
  simp only [step, if_neg hquote, hpass, Option.map_some]

/-- A text of harmless characters scans, with no strings. -/
theorem Scans.harmless (h : text.all isHarmless = true) : Scans text [] := by
  intro awaited found
  rw [List.append_nil]
  induction text with
  | nil => rfl
  | cons c text ih =>
    rw [List.all_cons, Bool.and_eq_true] at h
    rw [List.foldlM_cons, step_of_harmless h.1]
    exact ih h.2

/-- A blank scans, with no strings. -/
theorem Scans.space : Scans [' '] [] :=
  .harmless rfl

/-- A harmless character before a text. -/
theorem Scans.cons (hc : isHarmless c = true) (h : Scans text xs) : Scans (c :: text) xs := by
  intro awaited found
  rw [List.foldlM_cons, step_of_harmless hc]
  exact h awaited found

/-- A text that scans still does between a pair of brackets, with the same strings. -/
theorem Scans.bracketed {d : Char} (hopen : closing? c = some d) (hquote : c ≠ '"') (hquote' : d ≠ '"')
    (hclose : isClosing d = true) (hclose' : closing? d = none) (h : Scans text xs) :
    Scans (c :: (text ++ [d])) xs := by
  intro awaited found
  have hfirst : step ⟨awaited, found, .outside⟩ c = some ⟨d :: awaited, found, .outside⟩ := by
    simp only [step, if_neg hquote, pass, hopen, Option.map_some]
  have hlast : step ⟨d :: awaited, found ++ xs, .outside⟩ d = some ⟨awaited, found ++ xs, .outside⟩ := by
    simp only [step, if_neg hquote', pass, hclose', hclose, if_true, Option.map_some]
  rw [List.foldlM_cons, hfirst]
  show (text ++ [d]).foldlM step ⟨d :: awaited, found, .outside⟩ = _
  rw [List.foldlM_append, h]
  show [d].foldlM step ⟨d :: awaited, found ++ xs, .outside⟩ = _
  rw [List.foldlM_cons, hlast]
  rfl

/-- A text that scans still does in parentheses. -/
theorem Scans.parenthesized (h : Scans text xs) : Scans (parenthesized text) xs :=
  h.bracketed rfl (by decide) (by decide) rfl rfl

/-- So it does in parentheses that may be left out. -/
theorem Scans.parenthesizedIf (needed : Bool) (h : Scans text xs) :
    Scans (parenthesizedIf needed text) xs := by
  cases needed with
  | true => exact h.parenthesized
  | false => exact h

/-- What is awaited further out does not matter. -/
theorem pass_append {awaited awaited' : List Char} (h : pass awaited c = some awaited')
    (more : List Char) : pass (awaited ++ more) c = some (awaited' ++ more) := by
  unfold pass at h ⊢
  cases hopen : closing? c with
  | some d =>
    simp only [hopen, Option.some.injEq] at h
    rw [← h]
    rfl
  | none =>
    simp only [hopen] at h ⊢
    cases hclose : isClosing c with
    | false =>
      simp only [hclose, Bool.false_eq_true, if_false, Option.some.injEq] at h ⊢
      rw [h]
    | true =>
      simp only [hclose, if_true] at h ⊢
      cases awaited with
      | nil => cases h
      | cons d awaited =>
        by_cases hd : c = d
        · simp only [List.cons_append, if_pos hd, Option.some.injEq] at h ⊢
          rw [h]
        · simp only [if_neg hd] at h
          cases h

/-- A text without quotes that keeps its own brackets in order does so among open ones, and no string is found in it. -/
theorem foldlM_step_of_pass {awaited awaited' : List Char} (hquote : '"' ∉ text)
    (h : text.foldlM pass awaited = some awaited') (more : List Char) (found : List String) :
    text.foldlM step ⟨awaited ++ more, found, .outside⟩ = some ⟨awaited' ++ more, found, .outside⟩ := by
  induction text generalizing awaited with
  | nil =>
    cases h
    rfl
  | cons c text ih =>
    rw [List.mem_cons, not_or] at hquote
    rw [List.foldlM_cons] at h
    obtain ⟨middle, hpass, hrest⟩ := Option.bind_eq_some_iff.mp h
    have hstep : step ⟨awaited ++ more, found, .outside⟩ c = some ⟨middle ++ more, found, .outside⟩ := by
      simp only [step, if_neg (Ne.symm hquote.1), pass_append hpass more, Option.map_some]
    rw [List.foldlM_cons, hstep]
    exact ih hquote.2 hrest

/-- A plain text scans, with no strings. -/
theorem Scans.plain {s : String} (h : Plain s) : Scans s.toList [] := by
  intro awaited found
  rw [List.append_nil]
  exact foldlM_step_of_pass h.1 h.2 awaited found

/-! ## Strings -/

/-- Inside a string an escaped character is read as the character itself. -/
theorem foldlM_step_escape (c : Char) (awaited : List Char) (found : List String) (value : List Char) :
    (Quoted.escape c).foldlM step ⟨awaited, found, .inside value⟩ =
      some ⟨awaited, found, .inside (value ++ [c])⟩ := by
  rcases Quoted.escape_cases c with ⟨hc, hquote, hbackslash, -⟩ | ⟨letter, hc, hletter⟩
  · rw [hc]
    simp [step, hquote, hbackslash]
  · rw [hc]
    simp [step, hletter]

/-- The scanner goes through the body of a quoted text and has its value at the end. -/
theorem foldlM_step_body (s : List Char) (awaited : List Char) (found : List String) (value : List Char) :
    (Quoted.body s).foldlM step ⟨awaited, found, .inside value⟩ =
      some ⟨awaited, found, .inside (value ++ s)⟩ := by
  induction s generalizing value with
  | nil =>
    rw [List.append_nil]
    rfl
  | cons c s ih =>
    rw [Quoted.body_cons, List.foldlM_append, foldlM_step_escape]
    refine (ih (value ++ [c])).trans ?_
    rw [List.append_assoc, List.singleton_append]

/-- A quoted string is found whatever it holds. -/
theorem Scans.quote (s : String) : Scans (Quoted.quote s.toList) [s] := by
  intro awaited found
  have hopen : step ⟨awaited, found, .outside⟩ '"' = some ⟨awaited, found, .inside []⟩ := rfl
  unfold Quoted.quote
  rw [List.foldlM_cons, hopen]
  show (Quoted.body s.toList ++ ['"']).foldlM step ⟨awaited, found, .inside []⟩ = _
  rw [List.foldlM_append, foldlM_step_body, List.nil_append]
  show some (State.mk awaited (found ++ [String.ofList s.toList]) .outside) = _
  rw [String.ofList_toList]

/-! ## Lists -/

/-- Items with something harmless between them. -/
theorem Scans.intercalate {α : Type} (sep : List Char) (hsep : sep.all isHarmless = true)
    {shown : α → List Char} {strings : α → List String} {items : List α}
    (h : ∀ x ∈ items, Scans (shown x) (strings x)) :
    Scans (sep.intercalate (items.map shown)) (items.flatMap strings) := by
  induction items with
  | nil => exact .nil
  | cons x items ih =>
    have hx := h x List.mem_cons_self
    have hrest := ih fun y hy => h y (List.mem_cons_of_mem x hy)
    cases items with
    | nil => simpa using hx
    | cons y items =>
      have hsplit := (hx.append_nil (.harmless hsep)).append hrest
      rw [List.map_cons, List.map_cons, List.intercalate_cons_cons, List.flatMap_cons]
      exact hsplit

/-- A list of plain labels scans, with no strings. -/
theorem Scans.labelList {labels : List String} (h : ∀ l ∈ labels, Plain l) : Scans (labelList labels) [] := by
  have hlist : Scans ([',', ' '].intercalate (labels.map String.toList)) (labels.flatMap fun _ => []) :=
    .intercalate [',', ' '] rfl fun l hl => .plain (h l hl)
  rwa [List.flatMap_eq_nil_iff.mpr fun _ _ => rfl] at hlist

/-- A modifier that counts, with what is written around it. -/
theorem Scans.modifierText {modifier : Option String} {write : List Char → List Char}
    (hwrite : ∀ s : String, Plain s → Scans (write s.toList) []) (h : ∀ s ∈ present modifier, Plain s) :
    Scans (modifierText modifier write) [] := by
  unfold MetricQuery.modifierText
  cases hpresent : present modifier with
  | none => exact .nil
  | some s => exact hwrite s (h s hpresent)

/-- Time modifiers with plain texts scan, with no strings. -/
theorem Scans.timeModifiers {offset instant : Option String} (hoffset : ∀ s ∈ present offset, Plain s)
    (hinstant : ∀ s ∈ present instant, Plain s) : Scans (timeModifiers offset instant) [] :=
  (Scans.modifierText (fun _ hs => (Scans.harmless rfl).append (.plain hs)) hoffset).append
    (.modifierText (fun _ hs => (Scans.harmless rfl).append (.plain hs)) hinstant)

end Scan

/-! ## Strings of trees -/

/-- The strings of a selector that are written without quotes. -/
def Selector.bareTexts (s : Selector) : List String :=
  s.metric :: s.matchers.map Matcher.name ++ s.normal.range.toList ++ s.normal.offset.toList ++
    s.normal.instant.toList

/-- The texts of a window that are written as they are. -/
def Window.bareTexts (w : Window) : List String :=
  w.normal.range.toList ++ w.normal.resolution.toList ++ w.normal.offset.toList ++ w.normal.instant.toList

/-- The labels of a matching. -/
def Matching.bareTexts (m : Matching) : List String :=
  m.normal.labels ++ m.normal.carried

namespace Expr

/-- What is said of a string that stands as an argument, and of all other expressions. -/
def orText {α : Type} (string : String → α) (e : Expr) (other : α) : α :=
  match e with
  | text s => string s
  | _ => other

mutual

/-- All strings that are written as they are given: names, labels, modifiers that count, and strings that are
no arguments. -/
def bareTexts : Expr → List String
  | number _ => []
  | text s => [s]
  | selector s => s.bareTexts
  | subquery body w => body.bareTexts ++ w.bareTexts
  | unary _ e => e.bareTexts
  | aggregation _ e param g =>
    g.drop ++ g.keep ++ paramBareTexts param ++ orText (fun _ => []) e e.bareTexts
  | binary _ l r m => l.bareTexts ++ m.bareTexts ++ r.bareTexts
  | call f args => f :: argBareTexts args

/-- The bare texts of a parameter. -/
def paramBareTexts : Option Expr → List String
  | none => []
  | some e => orText (fun _ => []) e e.bareTexts

/-- The bare texts of arguments. -/
def argBareTexts : List Expr → List String
  | [] => []
  | e :: es => orText (fun _ => []) e e.bareTexts ++ argBareTexts es

end

mutual

/-- The values of matchers and the strings that are arguments, in the order in which they are written: the
parameter of an aggregation before its operand. -/
def quotedTexts : Expr → List String
  | number _ => []
  | text _ => []
  | selector s => s.matchers.map Matcher.value
  | subquery body _ => body.quotedTexts
  | unary _ e => e.quotedTexts
  | aggregation _ e param _ => paramQuotedTexts param ++ orText (fun s => [s]) e e.quotedTexts
  | binary _ l r _ => l.quotedTexts ++ r.quotedTexts
  | call _ args => argQuotedTexts args

/-- The quoted texts of a parameter. -/
def paramQuotedTexts : Option Expr → List String
  | none => []
  | some e => orText (fun s => [s]) e e.quotedTexts

/-- The quoted texts of arguments. -/
def argQuotedTexts : List Expr → List String
  | [] => []
  | e :: es => orText (fun s => [s]) e e.quotedTexts ++ argQuotedTexts es

end

/-- The quoted texts of arguments are those of each, a text literal being quoted as a whole. -/
theorem argQuotedTexts_eq_flatMap (args : List Expr) :
    argQuotedTexts args = args.flatMap fun e => orText (fun s => [s]) e e.quotedTexts := by
  induction args with
  | nil => rfl
  | cons e es ih => rw [argQuotedTexts, ih, List.flatMap_cons]

/-- The bare texts of an argument are among those of the arguments. -/
theorem mem_argBareTexts {args : List Expr} {e : Expr} (he : e ∈ args) {s : String}
    (hs : s ∈ orText (fun _ => []) e e.bareTexts) : s ∈ argBareTexts args := by
  induction args with
  | nil => exact absurd he List.not_mem_nil
  | cons a args ih =>
    rw [argBareTexts, List.mem_append]
    rcases List.mem_cons.mp he with rfl | hmem
    · exact .inl hs
    · exact .inr (ih hmem)

end Expr

/-! ## The nodes -/

open Scan

/-- A number scans, with no strings. -/
theorem Double.scans_toQuery (x : Double) : Scans x.toQuery [] := by
  cases hnan : x.isNaN with
  | true =>
    unfold toQuery
    rw [hnan]
    exact .harmless rfl
  | false =>
    have hdigits : x.queryDigits.all isHarmless = true := by
      rw [List.all_eq_true, queryDigits_eq]
      intro c hc
      rcases Decimal.isDigit_or_point_of_mem_plain hc with hdigit | rfl
      · exact isHarmless_of_isDigit hdigit
      · rfl
    have hunsigned : Scans (Query.unsignedChars x) [] := by
      unfold Query.unsignedChars
      split
      · exact .harmless rfl
      · exact .harmless hdigits
    rw [Query.toQuery_eq hnan]
    split
    · exact .cons rfl hunsigned
    · exact hunsigned

/-- A matcher with a plain name scans, and its value is its only string. -/
theorem Matcher.scans_chars {m : Matcher} (h : Plain m.name) : Scans m.chars [m.value] := by
  have hop : Scans m.op.symbol.toList [] := by
    cases m.op <;> exact .harmless rfl
  exact ((Scans.plain h).append hop).append (.quote m.value)

/-- A selector with plain texts scans, and its strings are the values of its matchers. -/
theorem Selector.scans_chars {s : Selector} (h : ∀ t ∈ s.bareTexts, Plain t) :
    Scans s.chars (s.matchers.map Matcher.value) := by
  simp only [bareTexts, List.forall_mem_append, List.forall_mem_cons, List.forall_mem_map,
    Option.mem_toList] at h
  obtain ⟨⟨⟨⟨hmetric, hnames⟩, hrange⟩, hoffset⟩, hinstant⟩ := h
  have hmatchers : Scans (matcherChars s.matchers) (s.matchers.map Matcher.value) := by
    have hlist := Scans.intercalate [','] rfl fun m hm => Matcher.scans_chars (hnames m hm)
    rw [← List.map_eq_flatMap] at hlist
    cases hms : s.matchers with
    | nil => exact .nil
    | cons m ms =>
      rw [hms] at hlist
      exact hlist.bracketed rfl (by decide) (by decide) rfl rfl
  have hranged : Scans (modifierText s.range fun r => '[' :: (r ++ [']'])) [] :=
    .modifierText (fun _ hr => (Scans.plain hr).bracketed rfl (by decide) (by decide) rfl rfl) hrange
  have hnamed := (Scans.plain hmetric).append hmatchers
  exact (hnamed.append_nil hranged).append_nil (.timeModifiers hoffset hinstant)

/-- A window with plain texts scans, with no strings. -/
theorem Window.scans_chars {w : Window} (h : ∀ t ∈ w.bareTexts, Plain t) : Scans w.chars [] := by
  simp only [bareTexts, List.forall_mem_append, Option.mem_toList] at h
  obtain ⟨⟨⟨hrange, hresolution⟩, hoffset⟩, hinstant⟩ := h
  refine Scans.append_nil ?_ (.timeModifiers hoffset hinstant)
  rw [modifierText]
  cases hpresent : present w.range with
  | none => exact .nil
  | some r =>
    -- The resolution counts, since there is a range.
    simp only [normal, hpresent, Option.isSome_some, if_true] at hresolution
    have hcounts : ∀ t ∈ present w.resolution, Plain t := fun t ht => hresolution t ht
    have hinner : Scans (r.toList ++ ':' :: modifierText w.resolution id) [] :=
      (Scans.plain (hrange r hpresent)).append (.cons rfl (.modifierText (fun _ ht => .plain ht) hcounts))
    have hbracketed := hinner.bracketed (c := '[') rfl (by decide) (by decide) rfl rfl
    simpa only [List.append_assoc, List.cons_append] using hbracketed

/-- A grouping by plain labels scans, with no strings. -/
theorem Grouping.scans_chars {g : Grouping} (hdrop : ∀ l ∈ g.drop, Plain l) (hkeep : ∀ l ∈ g.keep, Plain l) :
    Scans g.chars [] := by
  have hclause : ∀ (keyword : List Char) (labels : List String), keyword.all isHarmless = true →
      (∀ l ∈ labels, Plain l) →
      Scans (if labels = [] then [] else keyword ++ ['('] ++ labelList labels ++ [')', ' ']) [] := by
    intro keyword labels hkeyword hlabels
    split
    · exact .nil
    · have hparens := (Scans.labelList hlabels).parenthesized.append .space
      have hall := (Scans.harmless hkeyword).append hparens
      simpa only [parenthesized, List.append_assoc, List.cons_append, List.nil_append] using hall
  exact (hclause " without ".toList g.drop rfl hdrop).append (hclause " by ".toList g.keep rfl hkeep)

/-- A matching on plain labels scans, with no strings. -/
theorem Matching.scans_chars {m : Matching} (h : ∀ l ∈ m.bareTexts, Plain l) : Scans m.chars [] := by
  simp only [bareTexts, normal, List.forall_mem_append] at h
  obtain ⟨hlabels, hcarried⟩ := h
  have hscope : Scans m.scopeChars [] := by
    unfold scopeChars
    cases hsome : m.scope with
    | none => exact .nil
    | some scope =>
      rw [hsome] at hlabels
      have hkeyword : Scans scope.keyword.toList [] := by
        cases scope <;> exact .harmless rfl
      exact (hkeyword.append (Scans.labelList hlabels).parenthesized).append .space
  have hside : Scans m.sideChars [] := by
    unfold sideChars
    cases hsome : m.side with
    | none => exact .nil
    | some side =>
      rw [hsome] at hcarried
      have hkeyword : Scans side.keyword.toList [] := by
        cases side <;> exact .harmless rfl
      refine (hkeyword.append_nil ?_).append .space
      split
      · exact .nil
      · exact (Scans.labelList hcarried).parenthesized
  exact hscope.append hside

namespace Expr

/-- An argument is found whole when it is a string, and otherwise the strings in it are. -/
theorem scans_argument {e : Expr} (ih : (∀ s ∈ e.bareTexts, Plain s) → Scans e.chars e.quotedTexts)
    (h : ∀ s ∈ orText (fun _ => []) e e.bareTexts, Plain s) :
    Scans (e.argument e.chars) (orText (fun s => [s]) e e.quotedTexts) := by
  cases e with
  | text s => exact .quote s
  | _ => exact ih h

/-- An expression with plain bare texts scans, and its strings are its quoted texts in the order in which they are
written. -/
theorem scans_chars {e : Expr} (h : ∀ s ∈ e.bareTexts, Plain s) : Scans e.chars e.quotedTexts := by
  induction e using childInduction with
  | node e ih =>
    cases e with
    | number x => exact x.scans_toQuery
    | text s => exact .plain (h s List.mem_cons_self)
    | selector s => exact Selector.scans_chars h
    | subquery body w =>
      simp only [bareTexts, List.forall_mem_append] at h
      have hbody := (ih body List.mem_cons_self h.1).parenthesizedIf body.bodyNeedsParens
      exact hbody.append_nil (Window.scans_chars h.2)
    | unary op e =>
      have hop : Scans op.symbol.toList [] := by
        cases op <;> exact .harmless rfl
      exact hop.append ((ih e List.mem_cons_self h).parenthesizedIf e.isBinary)
    | aggregation op e param g =>
      simp only [bareTexts, List.forall_mem_append] at h
      obtain ⟨⟨⟨hdrop, hkeep⟩, hparam⟩, hoperand⟩ := h
      have hop : Scans op.symbol.toList [] := by
        cases op <;> exact .harmless rfl
      have hbefore : Scans (paramChars param) (paramQuotedTexts param) := by
        cases param with
        | none => exact .nil
        | some p =>
          have hp := scans_argument (ih p (List.mem_cons_of_mem _ List.mem_cons_self)) hparam
          exact hp.append_nil (.cons rfl .space)
      have hargs := hbefore.append (scans_argument (ih e List.mem_cons_self) hoperand)
      exact (hop.append (Grouping.scans_chars hdrop hkeep)).append hargs.parenthesized
    | binary op l r m =>
      simp only [bareTexts, List.forall_mem_append] at h
      obtain ⟨⟨hleft, hmatching⟩, hright⟩ := h
      have hop : Scans op.symbol.toList [] := by
        cases op <;> exact .harmless rfl
      have hl := (ih l List.mem_cons_self hleft).parenthesizedIf (operandNeedsParens op .left l)
      have hr := (ih r (List.mem_cons_of_mem _ List.mem_cons_self) hright).parenthesizedIf
        (operandNeedsParens op .right r)
      exact hl.append (.cons rfl (hop.append (.cons rfl ((Matching.scans_chars hmatching).append hr))))
    | call f args =>
      simp only [bareTexts, List.forall_mem_cons] at h
      have hargs := Scans.intercalate [',', ' '] rfl fun c hc =>
        scans_argument (ih c hc) fun s hs => h.2 s (mem_argBareTexts hc hs)
      rw [← argChars_eq_map, ← argQuotedTexts_eq_flatMap] at hargs
      exact (Scans.plain h.1).append hargs.parenthesized

/-- Whatever the values of matchers and the strings among the arguments hold, none of them gets out of its
quotes: the scan of the text ends outside of strings with every bracket closed, and the strings that it
finds are these, in the order in which they are written. -/
theorem scan_render (e : Expr) (h : ∀ s ∈ e.bareTexts, Plain s) :
    scan e.render.toList = some e.quotedTexts := by
  have hrender : e.render.toList = e.chars := String.toList_ofList
  rw [hrender]
  exact (scans_chars h).scan_eq

/-- A relabelling whose matchers and arguments hold quotes, brackets, a line break and a final backslash. -/
def relabelled : Expr :=
  aggregation .countValues
    (call "label_replace"
      [selector { metric := "up", offset := some "5m",
                  matchers := [⟨"path", "C:\\", .equal⟩, ⟨"job", "a\"](", .regexp⟩] },
        text "\"\n", text ")", unary .minus (number (.infinity false))])
    (some (text "v[")) { keep := ["x"] }

/-- An expression with brackets and quotes in its strings, which the scanner finds unchanged. -/
theorem scan_render_relabelled :
    (∀ s ∈ relabelled.bareTexts, Plain s) ∧
    scan relabelled.render.toList = some ["v[", "C:\\", "a\"](", "\"\n", ")"] := by
  have hplain : ∀ s ∈ relabelled.bareTexts, Plain s := by decide
  exact ⟨hplain, scan_render relabelled hplain⟩

end Expr

end MetricQuery
