import MetricQuery.Text.Quoted

/-!
# Reading quoted strings

A string of query text is read from behind its opening quote: a backslash takes the next character with
it, and the first quote without one ends the string. What `Quoted.quote` writes is read back whole,
whatever follows it: `scanString_quote`. So a text begins with one quoted string at most,
`quote_append_inj`, which tells quoted strings apart from each other and from what stands behind them.
-/

set_option autoImplicit false

namespace MetricQuery.Quoted

/-- The character that stands behind a backslash for another one. -/
def unescape (c : Char) : Option Char :=
  if c = '"' then some '"'
  else if c = '\\' then some '\\'
  else if c = 'n' then some '\n'
  else if c = 'r' then some '\r'
  else if c = 't' then some '\t'
  else none

/-- The characters of a string up to its closing quote, and what follows the quote. -/
def scanBody : List Char → Option (List Char × List Char)
  | [] => none
  | '"' :: rest => some ([], rest)
  | '\\' :: c :: rest => do
    let u ← unescape c
    let (s, rest) ← scanBody rest
    return (u :: s, rest)
  | c :: rest =>
    if c = '\\' then none
    else do
      let (s, rest) ← scanBody rest
      return (c :: s, rest)

/-- A string with its quotes, at the head of a text. -/
def scanString : List Char → Option (List Char × List Char)
  | '"' :: rest => scanBody rest
  | _ => none

/-- A character stands for itself, or a backslash and a letter that stands for it take its place. -/
theorem escape_cases (c : Char) :
    (escape c = [c] ∧ c ≠ '"' ∧ c ≠ '\\' ∧ c ≠ '\n' ∧ c ≠ '\r' ∧ c ≠ '\t') ∨
      ∃ letter, escape c = ['\\', letter] ∧ unescape letter = some c := by
  unfold escape
  by_cases h1 : c = '"'
  · subst h1
    exact .inr ⟨'"', by simp, by simp [unescape]⟩
  by_cases h2 : c = '\\'
  · subst h2
    exact .inr ⟨'\\', by simp, by simp [unescape]⟩
  by_cases h3 : c = '\n'
  · subst h3
    exact .inr ⟨'n', by simp, by simp [unescape]⟩
  by_cases h4 : c = '\r'
  · subst h4
    exact .inr ⟨'r', by simp, by simp [unescape]⟩
  by_cases h5 : c = '\t'
  · subst h5
    exact .inr ⟨'t', by simp, by simp [unescape]⟩
  exact .inl ⟨by simp [h1, h2, h3, h4, h5], h1, h2, h3, h4, h5⟩

/-- The escaped characters of a string are read back up to the quote behind them. -/
theorem scanBody_body (s rest : List Char) : scanBody (body s ++ '"' :: rest) = some (s, rest) := by
  induction s with
  | nil => rfl
  | cons c s ih =>
    rw [body_cons, List.append_assoc]
    rcases escape_cases c with ⟨hc, hquote, hbackslash, -⟩ | ⟨letter, hc, hletter⟩
    · -- A plain character is no quote, so it goes on with the string.
      rw [hc]
      simp [scanBody, hbackslash, ih]
    · rw [hc]
      simp [scanBody, hletter, ih]

/-- A quoted string is read back and nothing behind it is touched. -/
theorem scanString_quote (s rest : List Char) : scanString (quote s ++ rest) = some (s, rest) := by
  have h := scanBody_body s rest
  unfold quote
  rw [List.cons_append, List.append_assoc]
  exact h

/-! ## Quoted strings inside a text -/

/-- The three characters that would break a line are written as letters. -/
theorem ne_break_of_mem_escape {c d : Char} (h : d ∈ escape c) : d ≠ '\n' ∧ d ≠ '\r' ∧ d ≠ '\t' := by
  rcases escape_cases c with ⟨hc, -, -, hbreaks⟩ | ⟨letter, hc, hletter⟩
  · rw [hc, List.mem_singleton] at h
    rw [h]
    exact hbreaks
  · rw [hc, List.mem_cons, List.mem_singleton] at h
    rcases h with rfl | rfl
    · simp
    · -- None of the three is a letter behind a backslash.
      refine ⟨?_, ?_, ?_⟩ <;> rintro rfl <;> simp [unescape] at hletter

/-- No line feed, carriage return or tab stands in a quoted text. -/
theorem ne_break_of_mem_quote {v : List Char} {d : Char} (h : d ∈ quote v) : d ≠ '\n' ∧ d ≠ '\r' ∧ d ≠ '\t' := by
  rw [quote, List.mem_cons, List.mem_append, List.mem_singleton] at h
  rcases h with rfl | h | rfl
  · simp
  · obtain ⟨c, -, hd⟩ := List.mem_flatMap.mp h
    exact ne_break_of_mem_escape hd
  · simp

/-- A text begins with one quoted string at most. -/
theorem quote_append_inj {v w rest rest' : List Char} (h : quote v ++ rest = quote w ++ rest') :
    v = w ∧ rest = rest' := by
  have hread := scanString_quote v rest
  rw [h, scanString_quote w rest'] at hread
  simpa [eq_comm] using hread

/-- A quoted string is read back as it was, up to its end and no further, whatever follows it; it is on one
line; and no other quoted string is equal to it, or begins with it. -/
theorem scan_quote_unambiguous :
    (∀ v rest : List Char, scanString (quote v ++ rest) = some (v, rest)) ∧
    (∀ v : List Char, '\n' ∉ quote v ∧ '\r' ∉ quote v ∧ '\t' ∉ quote v) ∧
    (∀ v w : List Char, quote v = quote w ↔ v = w) ∧
    ∀ v w : List Char, quote v <+: quote w ↔ v = w := by
  refine ⟨scanString_quote, ?_, ?_, ?_⟩
  · intro v
    exact ⟨fun h => (ne_break_of_mem_quote h).1 rfl, fun h => (ne_break_of_mem_quote h).2.1 rfl,
      fun h => (ne_break_of_mem_quote h).2.2 rfl⟩
  · intro v w
    constructor
    · intro h
      have happend : quote v ++ [] = quote w ++ [] := congrArg (· ++ []) h
      exact (quote_append_inj happend).1
    · rintro rfl
      rfl
  · intro v w
    constructor
    · rintro ⟨rest, hrest⟩
      rw [← List.append_nil (quote w)] at hrest
      exact (quote_append_inj hrest).1
    · rintro rfl
      exact List.prefix_refl _

end MetricQuery.Quoted
