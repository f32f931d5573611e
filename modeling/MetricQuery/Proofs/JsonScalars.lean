import MetricQuery.Json.Reader
import MetricQuery.Json.Writer
import MetricQuery.Proofs.Scanning

/-!
# Reading JSON scalars in context

A number that is read from a text of its own is read the same way in the middle of a longer text, as far as
nothing follows that runs on with a number. Strings are read back from what is written for them, whatever
their characters are.
-/

set_option autoImplicit false

namespace MetricQuery.Json

variable {text rest : List Char} {j : Json} {negative : Bool} {significand : Nat} {e : Int}

/-! ## Numbers -/

/-- The characters that would run on with a number. -/
def runsOnNumber (c : Char) : Bool :=
  c.isDigit || decide (c = '.') || decide (c = 'e') || decide (c = 'E')

/-- What cannot run on in a number is no digit. -/
theorem stops_digit (h : Stops runsOnNumber rest) : Stops Char.isDigit rest := by
  apply h.imp
  intro c hc
  simp [runsOnNumber, hc]

/-- Digits are read in the same way with more behind them that is no part of a number. -/
theorem spanDigits_append_rest (text : List Char) (h : Stops runsOnNumber rest) :
    Decimal.spanDigits (text ++ rest) =
      ((Decimal.spanDigits text).1, (Decimal.spanDigits text).2 ++ rest) := by
  have hstop := stops_digit h
  unfold Decimal.spanDigits
  induction text with
  | nil =>
    rw [List.nil_append, takeWhile_of_stops hstop, dropWhile_of_stops hstop]
    rfl
  | cons c text ih =>
    by_cases hc : c.isDigit = true
    · simp only [Prod.mk.injEq] at ih
      simp [hc, ih.1, ih.2]
    · simp [hc]

/-- The digits of an exponent behind its sign. -/
def exponentDigits (negative : Bool) (significand : Nat) (e : Int) (down : Bool) (text : List Char) :
    Except Fault (Json × List Char) :=
  match text with
  | [] => .error .truncated
  | c :: rest =>
    if c.isDigit then
      let (ds, rest) := Decimal.spanDigits (c :: rest)
      let n := numberOfDigits ds
      if n ≤ maxExponent then do
        let x ← scale significand (if down then e - n else e + n)
        return (signed negative x, rest)
      else if significand ≠ 0 ∧ !down then .error .malformed
      else .ok (signed negative (Double.zero false), rest)
    else .error .malformed

/-- Whether an exponent goes down, and its text without the sign. -/
def exponentSign : List Char → Bool × List Char
  | '+' :: rest => (false, rest)
  | '-' :: rest => (true, rest)
  | rest => (false, rest)

/-- An exponent has a sign, which may be left out, and then digits. -/
theorem readExponent_eq (negative : Bool) (significand : Nat) (e : Int) (text : List Char) :
    readExponent negative significand e text =
      exponentDigits negative significand e (exponentSign text).1 (exponentSign text).2 :=
  rfl

/-- The sign of an exponent is read in the same way with more behind it. -/
theorem exponentSign_append (hne : text ≠ []) :
    exponentSign (text ++ rest) = ((exponentSign text).1, (exponentSign text).2 ++ rest) := by
  obtain ⟨c, text, rfl⟩ := List.exists_cons_of_ne_nil hne
  by_cases hplus : c = '+'
  · subst hplus
    rfl
  by_cases hminus : c = '-'
  · subst hminus
    rfl
  have hother : ∀ t, exponentSign (c :: t) = (false, c :: t) := by
    intro t
    unfold exponentSign
    split
    · rename_i heq
      exact absurd (List.cons.inj heq).1 hplus
    · rename_i heq
      exact absurd (List.cons.inj heq).1 hminus
    · rfl
  rw [List.cons_append, hother, hother, List.cons_append]

section Append

variable {after : List Char} (h : Stops runsOnNumber rest)
include h

/-- So are its digits. -/
theorem exponentDigits_append {down : Bool}
    (hread : exponentDigits negative significand e down text = .ok (j, after)) :
    exponentDigits negative significand e down (text ++ rest) = .ok (j, after ++ rest) := by
  cases text with
  | nil => cases hread
  | cons c text =>
    have hspan : Decimal.spanDigits (c :: (text ++ rest)) =
        ((Decimal.spanDigits (c :: text)).1, (Decimal.spanDigits (c :: text)).2 ++ rest) :=
      spanDigits_append_rest (c :: text) h
    simp only [exponentDigits, List.cons_append, hspan] at hread ⊢
    by_cases hdigit : c.isDigit = true
    · simp only [if_pos hdigit] at hread ⊢
      split at hread
      · rename_i hmax
        rw [if_pos hmax]
        cases hscale : scale significand (if down = true then
            e - numberOfDigits (Decimal.spanDigits (c :: text)).1
          else e + numberOfDigits (Decimal.spanDigits (c :: text)).1) with
        | error f =>
          rw [hscale] at hread
          cases hread
        | ok x =>
          rw [hscale] at hread
          cases hread
          rfl
      · rename_i hmax
        rw [if_neg hmax]
        split at hread
        · cases hread
        · rename_i hrange
          rw [if_neg hrange]
          cases hread
          rfl
    · rw [if_neg hdigit] at hread
      cases hread

/-- So is an exponent as a whole. -/
theorem readExponent_append (hread : readExponent negative significand e text = .ok (j, after)) :
    readExponent negative significand e (text ++ rest) = .ok (j, after ++ rest) := by
  have hne : text ≠ [] := by
    rintro rfl
    cases hread
  rw [readExponent_eq] at hread ⊢
  rw [exponentSign_append hne]
  exact exponentDigits_append h hread

omit h in
/-- So is a number that has been scaled. -/
theorem scaled_append (text : List Char) {x : Except Fault Double}
    (hread : x.map (fun f => (signed negative f, text)) = .ok (j, after)) :
    x.map (fun f => (signed negative f, text ++ rest)) = .ok (j, after ++ rest) := by
  cases x with
  | error f => cases hread
  | ok x =>
    cases hread
    rfl

/-- What follows a number is not taken for its exponent. -/
theorem readTail_rest (negative : Bool) (significand : Nat) (e : Int) :
    readTail negative significand e rest =
      (scale significand e).map fun f => (signed negative f, rest) := by
  cases rest with
  | nil => rfl
  | cons c rest =>
    have hc := stops_cons.mp h
    simp only [runsOnNumber, Bool.or_eq_false_iff, decide_eq_false_iff_not] at hc
    unfold readTail
    simp only [hc.1.2, hc.2, or_self, if_false]
    rfl

/-- So is what stands behind a fraction. -/
theorem readTail_append (hread : readTail negative significand e text = .ok (j, after)) :
    readTail negative significand e (text ++ rest) = .ok (j, after ++ rest) := by
  cases text with
  | nil =>
    rw [List.nil_append, readTail_rest h]
    exact scaled_append [] hread
  | cons c text =>
    simp only [readTail, List.cons_append] at hread ⊢
    split at hread
    · rename_i hc
      rw [if_pos hc]
      exact readExponent_append h hread
    · rename_i hc
      rw [if_neg hc]
      exact scaled_append (c :: text) hread

/-- So is a fraction. -/
theorem readFraction_append (hread : readFraction negative significand e text = .ok (j, after)) :
    readFraction negative significand e (text ++ rest) = .ok (j, after ++ rest) := by
  have hspan := spanDigits_append_rest text h
  unfold readFraction at hread ⊢
  rw [hspan]
  cases hdigits : Decimal.spanDigits text with
  | mk ds tail =>
    rw [hdigits] at hread
    cases ds with
    | nil => cases tail <;> cases hread
    | cons d ds => exact readTail_append h hread

omit h in
/-- A number without fraction and exponent. -/
theorem readPoint_of_stops {skipped : Nat} (h : Stops (fun c => c = '.' || c = 'e' || c = 'E') text) :
    readPoint negative significand skipped text =
      if skipped = 0 then .ok (whole negative significand, text)
      else (scale significand skipped).map fun f => (signed negative f, text) := by
  have hne : ∀ c t, text = c :: t → c ≠ '.' ∧ c ≠ 'e' ∧ c ≠ 'E' := by
    rintro c t rfl
    have hc := stops_cons.mp h
    simp only [Bool.or_eq_false_iff, decide_eq_false_iff_not] at hc
    exact ⟨hc.1.1, hc.1.2, hc.2⟩
  unfold readPoint
  split
  · exact absurd rfl (hne _ _ rfl).1
  · exact absurd rfl (hne _ _ rfl).2.1
  · exact absurd rfl (hne _ _ rfl).2.2
  · rfl

/-- So is what stands behind a whole part. -/
theorem readPoint_append {skipped : Nat}
    (hread : readPoint negative significand skipped text = .ok (j, after)) :
    readPoint negative significand skipped (text ++ rest) = .ok (j, after ++ rest) := by
  by_cases hstops : Stops (fun c => c = '.' || c = 'e' || c = 'E') text
  · have hrest : Stops (fun c => c = '.' || c = 'e' || c = 'E') rest := by
      apply h.imp
      intro c hc
      simp only [Bool.or_eq_true] at hc
      simp only [runsOnNumber, Bool.or_eq_true]
      rcases hc with (hc | hc) | hc
      · exact .inl (.inl (.inr hc))
      · exact .inl (.inr hc)
      · exact .inr hc
    rw [readPoint_of_stops hstops] at hread
    rw [readPoint_of_stops (hstops.append hrest)]
    split at hread
    · rename_i hskipped
      rw [if_pos hskipped]
      cases hread
      rfl
    · rename_i hskipped
      rw [if_neg hskipped]
      exact scaled_append text hread
  · cases text with
    | nil => exact absurd stops_nil hstops
    | cons c text =>
      have hc : c = '.' ∨ c = 'e' ∨ c = 'E' := by
        rw [stops_cons, Bool.not_eq_false] at hstops
        simpa [or_assoc] using hstops
      rcases hc with rfl | rfl | rfl
      · exact readFraction_append h hread
      · exact readExponent_append h hread
      · exact readExponent_append h hread

omit h in
/-- A zero is a whole part by itself. -/
theorem readNumber_zero (hstops : Stops Char.isDigit text) :
    readNumber negative ('0' :: text) = readPoint negative 0 0 text := by
  cases text with
  | nil => rfl
  | cons d text =>
    have hd := stops_cons.mp hstops
    simp [readNumber, hd]

omit h in
/-- Any other whole part has all digits up to where they stop. -/
theorem readNumber_of_ne {c : Char} (hzero : c ≠ '0') : readNumber negative (c :: text) =
    if c.isDigit then
      readPoint negative (collect 0 (Decimal.spanDigits (c :: text)).1).1
        (collect 0 (Decimal.spanDigits (c :: text)).1).2 (Decimal.spanDigits (c :: text)).2
    else .error .malformed := by
  unfold readNumber
  split
  · rename_i heq
    cases heq
  · rename_i heq
    exact absurd (List.cons.inj heq).1 hzero
  · rename_i heq
    obtain ⟨rfl, rfl⟩ := List.cons.inj heq
    rfl

/-- A number is read from the head of a longer text as from a text of its own. -/
theorem readNumber_append (hread : readNumber negative text = .ok (j, after)) :
    readNumber negative (text ++ rest) = .ok (j, after ++ rest) := by
  cases text with
  | nil => cases hread
  | cons c text =>
    by_cases hzero : c = '0'
    · subst hzero
      have hstops : Stops Char.isDigit text := by
        cases text with
        | nil => exact stops_nil
        | cons d text =>
          rw [stops_cons]
          cases hd : d.isDigit with
          | false => rfl
          | true => simp [readNumber, hd] at hread
      rw [readNumber_zero hstops] at hread
      rw [List.cons_append, readNumber_zero (hstops.append (stops_digit h))]
      exact readPoint_append h hread
    · have hspan : Decimal.spanDigits (c :: (text ++ rest)) =
          ((Decimal.spanDigits (c :: text)).1, (Decimal.spanDigits (c :: text)).2 ++ rest) :=
        spanDigits_append_rest (c :: text) h
      rw [readNumber_of_ne hzero] at hread
      rw [List.cons_append, readNumber_of_ne hzero, hspan]
      by_cases hdigit : c.isDigit = true
      · rw [if_pos hdigit] at hread ⊢
        exact readPoint_append h hread
      · rw [if_neg hdigit] at hread
        cases hread

end Append

/-! ## Strings -/

/-- The hexadecimal digit of a number is read as the number. -/
theorem hexValue?_digitChar : ∀ n < 16, hexValue? (Nat.digitChar n) = some n := by
  decide

/-- The code of a control character is read as the character. -/
theorem readEscape_hexByte {n : Nat} (hn : n < 0x20) (text : List Char) :
    readEscape ('u' :: '0' :: '0' :: (hexByte n ++ text)) = .ok (Char.ofNat n, text) := by
  have hhigh := hexValue?_digitChar (n / 16) (by omega)
  have hlow := hexValue?_digitChar (n % 16) (by omega)
  have hzero : hexValue? '0' = some 0 := rfl
  have hhex : readHex ('0' :: '0' :: (hexByte n ++ text)) = .ok (n, text) := by
    have hvalue : 4096 * 0 + 256 * 0 + 16 * (n / 16) + n % 16 = n := by omega
    simp only [hexByte, List.cons_append, List.nil_append, readHex, hzero, hhigh, hlow, hvalue]
  have hnotLow : isLowSurrogate n = false := by
    simp only [isLowSurrogate, decide_eq_false_iff_not]
    omega
  have hnotHigh : isHighSurrogate n = false := by
    simp only [isHighSurrogate, decide_eq_false_iff_not]
    omega
  simp only [readEscape, hhex, bind, Except.bind, hnotLow, hnotHigh]
  rfl

/-- One step of the reader takes one character with its escape. -/
theorem readChars_escape (steps : Nat) (c : Char) (text : List Char) :
    readChars (steps + 1) (escape c ++ text) =
      (readChars steps text).map fun p => (c :: p.1, p.2) := by
  have hescaped : ∀ t, readEscape t = .ok (c, text) →
      readChars (steps + 1) ('\\' :: t) = (readChars steps text).map fun p => (c :: p.1, p.2) := by
    intro t ht
    simp only [readChars, ht, bind, Except.bind]
    cases readChars steps text <;> rfl
  unfold escape
  by_cases h1 : c = '"'
  · subst h1
    exact hescaped _ rfl
  by_cases h2 : c = '\\'
  · subst h2
    exact hescaped _ rfl
  by_cases h3 : c = '\n'
  · subst h3
    exact hescaped _ rfl
  by_cases h4 : c = '\r'
  · subst h4
    exact hescaped _ rfl
  by_cases h5 : c = '\t'
  · subst h5
    exact hescaped _ rfl
  simp only [if_neg h1, if_neg h2, if_neg h3, if_neg h4, if_neg h5]
  by_cases h6 : c.toNat = 0x8
  · have hc : c = '\x08' := Char.toNat_inj.mp h6
    subst hc
    exact hescaped _ rfl
  by_cases h7 : c.toNat = 0xc
  · have hc : c = '\x0c' := Char.toNat_inj.mp h7
    subst hc
    exact hescaped _ rfl
  simp only [if_neg h6, if_neg h7]
  by_cases h8 : c.toNat < 0x20
  · rw [if_pos h8]
    apply hescaped
    have hread := readEscape_hexByte h8 text
    rw [Char.ofNat_toNat] at hread
    exact hread
  · rw [if_neg h8, List.singleton_append, readChars]
    simp only [if_neg h1, if_neg h2, if_neg h8, bind, Except.bind]
    cases readChars steps text <;> rfl

/-- The characters of a written string are read up to its quote. -/
theorem readChars_body {s : List Char} {steps : Nat} (hsteps : s.length < steps) :
    readChars steps (s.flatMap escape ++ '"' :: rest) = .ok (s, rest) := by
  induction s generalizing steps with
  | nil =>
    obtain ⟨n, rfl⟩ : ∃ n, steps = n + 1 := ⟨steps - 1, by simp at hsteps; omega⟩
    rfl
  | cons c s ih =>
    obtain ⟨n, rfl⟩ : ∃ n, steps = n + 1 := ⟨steps - 1, by omega⟩
    rw [List.flatMap_cons, List.append_assoc, readChars_escape, ih (by simpa using hsteps)]
    rfl

/-- Escaping makes no text shorter. -/
theorem length_le_flatMap_escape (s : List Char) : s.length ≤ (s.flatMap escape).length := by
  induction s with
  | nil => exact Nat.le_refl _
  | cons c s ih =>
    have hpos : 0 < (escape c).length := by
      unfold escape
      repeat' split
      all_goals simp
    rw [List.flatMap_cons, List.length_append, List.length_cons]
    omega

/-- A string is written with a quote, its characters and a quote. -/
theorem stringChars_append (s : String) :
    stringChars s ++ rest = '"' :: (s.toList.flatMap escape ++ '"' :: rest) := by
  simp [stringChars]

/-- A string is read back from behind its opening quote, whatever its characters are. -/
theorem readString_body (s : String) (rest : List Char) :
    readString (s.toList.flatMap escape ++ '"' :: rest) = .ok (s, rest) := by
  have hlength := length_le_flatMap_escape s.toList
  unfold readString
  rw [readChars_body (by simp only [List.length_append, List.length_cons]; omega)]
  simp only [bind, Except.bind, String.ofList_toList]
  rfl

end MetricQuery.Json
