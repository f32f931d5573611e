import MetricQuery.Json.Writer
import MetricQuery.Proofs.DecimalText
import MetricQuery.Proofs.JsonText
import MetricQuery.Proofs.ScaledDecimals

/-!
# JSON numbers, written and read

The text of a finite number has a fraction, an exponent or both, so it is a `Numeral`. The reader collects the digits
of a numeral, at most seventeen, without loss and scales them once, `readNumber_chars`. What it gets is `restored`: a
number of the same sign that is near the one that was written, `restored_near`.

A numeral that is cut off is still a number of its own or ends where a digit is missing, `readNumber_cut`. It is never
out of range, since a cut exponent is small.
-/

set_option autoImplicit false

namespace MetricQuery

/-! ## Cuts -/

/-- The text is cut off: something of it is missing. -/
def CutOf (p text : List Char) : Prop :=
  ∃ c rest, text = p ++ c :: rest

section Cuts

variable {p text other : List Char} {c : Char}

/-- Nothing can be cut off the empty text. -/
theorem not_cutOf_nil : ¬ CutOf p [] := by
  rintro ⟨c, rest, h⟩
  exact List.append_ne_nil_of_right_ne_nil p (List.cons_ne_nil c rest) h.symm

/-- A text that is cut off is cut before its first character or behind it. -/
theorem cutOf_cons (h : CutOf p (c :: text)) : p = [] ∨ ∃ q, p = c :: q ∧ CutOf q text := by
  obtain ⟨d, rest, h⟩ := h
  cases p with
  | nil => exact .inl rfl
  | cons b q =>
    obtain ⟨rfl, htext⟩ := List.cons.inj h
    exact .inr ⟨q, rfl, d, rest, htext⟩

/-- A cut falls into the first of two texts or behind it. -/
theorem cutOf_append (h : CutOf p (text ++ other)) : CutOf p text ∨ ∃ q, p = text ++ q ∧ CutOf q other := by
  induction text generalizing p with
  | nil => exact .inr ⟨p, rfl, h⟩
  | cons c text ih =>
    rcases cutOf_cons h with rfl | ⟨q, rfl, hq⟩
    · exact .inl ⟨c, text, rfl⟩
    · rcases ih hq with ⟨d, rest, rfl⟩ | ⟨r, rfl, hr⟩
      · exact .inl ⟨d, rest, rfl⟩
      · exact .inr ⟨r, rfl, hr⟩

/-- What is left of a text has no other characters. -/
theorem CutOf.subset (h : CutOf p text) : p ⊆ text := by
  obtain ⟨c, rest, rfl⟩ := h
  exact List.subset_append_left p _

/-- What begins a text that is cut off begins the text. -/
theorem Stops.cut {kind : Char → Bool} (h : Stops kind text) (hp : CutOf p text) : Stops kind p := by
  obtain ⟨c, rest, rfl⟩ := hp
  cases p with
  | nil => exact stops_nil
  | cons d p => exact stops_cons.mpr (stops_cons.mp h)

end Cuts

/-! ## Digits -/

/-- Reading digits never makes a number less. -/
theorem le_ofDigitChars (ds : List Char) (n : Nat) : n ≤ Nat.ofDigitChars 10 ds n := by
  rw [Nat.ofDigitChars_eq_ofDigitChars_zero]
  have hle : 1 * n ≤ 10 ^ ds.length * n := Nat.mul_le_mul_right n (Nat.one_le_pow _ _ (by decide))
  omega

/-- Digits are read one group behind the other. -/
theorem numberOfDigits_append (ds es : List Char) :
    numberOfDigits (ds ++ es) = Nat.ofDigitChars 10 es (numberOfDigits ds) :=
  Nat.ofDigitChars_append 0

/-- A number is bounded by the count of its digits. -/
theorem numberOfDigits_lt {ds : List Char} (h : ∀ c ∈ ds, c.isDigit = true) : numberOfDigits ds < 10 ^ ds.length := by
  rw [numberOfDigits_eq]
  induction ds with
  | nil => decide
  | cons c ds ih =>
    have hlater := ih fun d hd => h d (List.mem_cons_of_mem c hd)
    have hdigit : c.toNat - '0'.toNat ≤ 9 := by
      have hc := h c List.mem_cons_self
      simp only [Char.isDigit, Bool.and_eq_true, decide_eq_true_eq] at hc
      have hhigh : c.toNat ≤ 57 := hc.2
      have hzero : '0'.toNat = 48 := rfl
      omega
    have hmul : 10 ^ ds.length * (c.toNat - '0'.toNat) ≤ 10 ^ ds.length * 9 := Nat.mul_le_mul_left _ hdigit
    rw [Nat.ofDigitChars_cons, Nat.mul_zero, Nat.zero_add, Nat.ofDigitChars_eq_ofDigitChars_zero, List.length_cons,
      pow_succ]
    omega

/-- A number is not written with a zero before it. -/
theorem ne_zero_of_digitsOf {n : Nat} {c : Char} {cs : List Char} (hn : n ≠ 0) (h : digitsOf n = c :: cs) :
    c ≠ '0' := by
  rintro rfl
  have hle := ten_pow_le_of_ne_zero hn
  have hdigits : ∀ d ∈ cs, d.isDigit = true := fun d hd => isDigit_of_mem_digitsOf (h ▸ List.mem_cons_of_mem _ hd)
  have hlt := numberOfDigits_lt hdigits
  have hsame : numberOfDigits cs = n := by
    rw [← numberOfDigits_digitsOf n, h]
    exact (numberOfDigits_zeros_append 1 cs).symm
  rw [h, List.length_cons, Nat.add_sub_cancel] at hle
  omega

/-- A whole part that the reader accepts: no zero stands before its digits. -/
def Leads (whole : List Char) : Prop :=
  whole = ['0'] ∨ ∃ c cs, whole = c :: cs ∧ c ≠ '0'

/-- A whole part that is cut off still is one, as long as a digit is left. -/
theorem Leads.cut {p whole : List Char} (h : Leads whole) (hp : CutOf p whole) (hne : p ≠ []) : Leads p := by
  rcases h with rfl | ⟨c, cs, rfl, hc⟩
  · rcases cutOf_cons hp with rfl | ⟨q, -, hq⟩
    · exact absurd rfl hne
    · exact absurd hq not_cutOf_nil
  · rcases cutOf_cons hp with rfl | ⟨q, rfl, -⟩
    · exact absurd rfl hne
    · exact .inr ⟨c, q, rfl, hc⟩

namespace Json

variable {negative : Bool} {s : Nat} {e : Int} {ds text : List Char}

/-- Digits that fit are all collected. -/
theorem collect_eq (h : Nat.ofDigitChars 10 ds s ≤ maxSignificand) : collect s ds = (Nat.ofDigitChars 10 ds s, 0) := by
  induction ds generalizing s with
  | nil => rfl
  | cons d ds ih =>
    rw [Nat.ofDigitChars_cons] at h ⊢
    have hnext := (le_ofDigitChars ds _).trans h
    rw [collect, if_pos hnext]
    exact ih h

/-- Behind the digits of the whole part the reader looks for a point. -/
theorem readNumber_whole (negative : Bool) (hlead : Leads ds) (hds : ∀ c ∈ ds, c.isDigit = true)
    (hfit : numberOfDigits ds ≤ maxSignificand) (hstops : Stops Char.isDigit text) :
    readNumber negative (ds ++ text) = readPoint negative (numberOfDigits ds) 0 text := by
  rcases hlead with rfl | ⟨c, cs, rfl, hc⟩
  · exact readNumber_zero hstops
  · have hspan := Decimal.spanDigits_append hds hstops
    rw [List.cons_append] at hspan ⊢
    rw [readNumber_of_ne hc, if_pos (hds c List.mem_cons_self), hspan, collect_eq hfit]
    rfl

/-- Behind the digits of the fraction it looks for an exponent. -/
theorem readPoint_fraction (negative : Bool) (hne : ds ≠ []) (hds : ∀ c ∈ ds, c.isDigit = true)
    (hfit : Nat.ofDigitChars 10 ds s ≤ maxSignificand) (hstops : Stops Char.isDigit text) :
    readPoint negative s 0 ('.' :: (ds ++ text)) =
      readTail negative (Nat.ofDigitChars 10 ds s) (-(ds.length : Int)) text := by
  have hspan := Decimal.spanDigits_append hds hstops
  obtain ⟨c, cs, rfl⟩ := List.exists_cons_of_ne_nil hne
  have hexp : ((0 : Nat) : Int) - ((c :: cs).length - 0 : Nat) = -((c :: cs).length : Int) := by omega
  show readFraction negative s (0 : Nat) _ = _
  simp only [readFraction, hspan, collect_eq hfit, hexp]

/-- A digit is no white space. -/
theorem skipBlanks_digit {c : Char} (hc : c.isDigit = true) : skipBlanks (c :: text) = c :: text := by
  apply skipBlanks_cons
  simp only [isBlank, Bool.or_eq_false_iff, decide_eq_false_iff_not]
  exact ⟨⟨⟨ne_of_class hc rfl, ne_of_class hc rfl⟩, ne_of_class hc rfl⟩, ne_of_class hc rfl⟩

/-- The sign of an exponent. -/
def signOf (down : Bool) : Char :=
  if down then '-' else '+'

/-- What an exponent adds to the power of ten. -/
def exponentValue : Option (Bool × List Char) → Int
  | none => 0
  | some (true, ds) => -(numberOfDigits ds : Int)
  | some (false, ds) => numberOfDigits ds

/-- Behind the digits of the exponent the number is scaled by it. -/
theorem readExponent_digits (down : Bool) (hne : ds ≠ []) (hds : ∀ c ∈ ds, c.isDigit = true)
    (hfit : numberOfDigits ds ≤ maxExponent) :
    readExponent negative s e (signOf down :: ds) =
      (scale s (e + exponentValue (some (down, ds)))).map fun x => (signed negative x, []) := by
  have hspan := Decimal.spanDigits_all hds
  have hsign : exponentSign (signOf down :: ds) = (down, ds) := by cases down <;> rfl
  have hvalue : (if down then e - numberOfDigits ds else e + numberOfDigits ds) =
      e + exponentValue (some (down, ds)) := by
    cases down with
    | false => rfl
    | true => exact Int.sub_eq_add_neg
  obtain ⟨c, cs, rfl⟩ := List.exists_cons_of_ne_nil hne
  rw [readExponent_eq, hsign, ← hvalue]
  simp only [exponentDigits, if_pos (hds c List.mem_cons_self), hspan, if_pos hfit]
  rfl

/-! ## Numerals -/

/-- A number that has a fraction, an exponent or both, with few enough digits for the reader. -/
structure Numeral where
  whole : List Char
  fraction : List Char
  /-- Whether the exponent goes down, and its digits. -/
  exponent : Option (Bool × List Char)
  whole_digits : ∀ c ∈ whole, c.isDigit = true
  leads : Leads whole
  fraction_digits : ∀ c ∈ fraction, c.isDigit = true
  exponent_digits : ∀ p ∈ exponent, p.2 ≠ [] ∧ (∀ c ∈ p.2, c.isDigit = true) ∧ numberOfDigits p.2 < 400
  broken : fraction ≠ [] ∨ exponent ≠ none
  short : numberOfDigits (whole ++ fraction) < 10 ^ 17

/-- The text of a fraction. Without digits it has no point. -/
def pointChars : List Char → List Char
  | [] => []
  | f => '.' :: f

/-- The text of an exponent, if there is one. -/
def exponentChars : Option (Bool × List Char) → List Char
  | none => []
  | some (down, ds) => 'e' :: signOf down :: ds

namespace Numeral

/-- The text of a numeral. -/
def chars (n : Numeral) : List Char :=
  n.whole ++ (pointChars n.fraction ++ exponentChars n.exponent)

/-- The decimal that a numeral stands for. -/
def decimal (n : Numeral) : Decimal where
  digits := numberOfDigits (n.whole ++ n.fraction)
  exponent := exponentValue n.exponent - n.fraction.length

variable (n : Numeral)

/-- The digits of the whole part stop at the point or the exponent. -/
theorem stops_tail : Stops Char.isDigit (pointChars n.fraction ++ exponentChars n.exponent) := by
  cases n.fraction with
  | nil =>
    cases n.exponent with
    | none => exact stops_nil
    | some p => exact stops_cons.mpr rfl
  | cons c cs => exact stops_cons.mpr rfl

/-- Those of the fraction stop at the exponent. -/
theorem stops_exponent : Stops Char.isDigit (exponentChars n.exponent) := by
  cases n.exponent with
  | none => exact stops_nil
  | some p => exact stops_cons.mpr rfl

/-- The digits of a numeral and of each of its parts fit into a significand. -/
theorem fits {m : Nat} (h : m ≤ n.decimal.digits) : m ≤ maxSignificand := by
  have hshort : n.decimal.digits < 10 ^ 17 := n.short
  unfold maxSignificand
  omega

/-- The digits before and behind the point make the digits of the decimal. -/
theorem digits_eq : Nat.ofDigitChars 10 n.fraction (numberOfDigits n.whole) = n.decimal.digits :=
  (numberOfDigits_append n.whole n.fraction).symm

/-- Those before the point alone make no more than that. -/
theorem whole_le : numberOfDigits n.whole ≤ n.decimal.digits := by
  rw [← n.digits_eq]
  exact le_ofDigitChars _ _

variable {n} {negative : Bool}

/-- An exponent has digits, and they are not too many for the reader. -/
theorem exponent_fits {down : Bool} {ds : List Char} (h : n.exponent = some (down, ds)) :
    ds ≠ [] ∧ (∀ c ∈ ds, c.isDigit = true) ∧ numberOfDigits ds ≤ maxExponent := by
  obtain ⟨hne, hds, hlt⟩ := n.exponent_digits (down, ds) h
  refine ⟨hne, hds, ?_⟩
  unfold maxExponent
  dsimp only at hlt
  omega

/-- Behind the fraction the rest of a numeral is read as its exponent. -/
theorem readTail_exponent (s : Nat) (e : Int) :
    readTail negative s e (exponentChars n.exponent) =
      (scale s (e + exponentValue n.exponent)).map fun x => (signed negative x, []) := by
  rcases hexp : n.exponent with _ | ⟨down, ds⟩
  · rw [exponentChars, readTail_rest stops_nil, exponentValue, Int.add_zero]
  · obtain ⟨hne, hds, hfit⟩ := exponent_fits hexp
    exact readExponent_digits down hne hds hfit

/-- The reader takes a numeral for its decimal. -/
theorem readNumber_chars (n : Numeral) (negative : Bool) :
    readNumber negative n.chars =
      (scale n.decimal.digits n.decimal.exponent).map fun x => (signed negative x, []) := by
  rw [chars, readNumber_whole negative n.leads n.whole_digits (n.fits n.whole_le) n.stops_tail]
  cases hfraction : n.fraction with
  | nil =>
    -- Without a fraction there is an exponent.
    rcases hexp : n.exponent with _ | ⟨down, ds⟩
    · exact absurd hexp (n.broken.resolve_left fun h => h hfraction)
    · obtain ⟨hne, hds, hfit⟩ := exponent_fits hexp
      have hdecimal : n.decimal = ⟨numberOfDigits n.whole, (0 : Nat) + exponentValue (some (down, ds))⟩ := by
        simp [decimal, hfraction, hexp]
      rw [hdecimal]
      exact readExponent_digits down hne hds hfit
  | cons c cs =>
    have hfit := n.fits n.digits_eq.le
    have hne : n.fraction ≠ [] := hfraction ▸ List.cons_ne_nil c cs
    rw [pointChars, List.cons_append, ← hfraction,
      readPoint_fraction negative hne n.fraction_digits hfit n.stops_exponent,
      readTail_exponent, n.digits_eq, decimal, neg_add_eq_sub]
    · exact nofun

/-! ## Cut numerals -/

end Numeral

/-- The text ends before the step is done, or right after it. -/
def RunsOut {α : Type} (step : Except Fault (α × List Char)) : Prop :=
  step = .error .truncated ∨ ∃ a, step = .ok (a, [])

/-- A number that is scaled without fault leaves nothing behind. -/
theorem runsOut_scale (h : ∃ x, scale s e = .ok x) :
    RunsOut ((scale s e).map fun x => (signed negative x, [])) := by
  obtain ⟨x, hx⟩ := h
  rw [hx]
  exact .inr ⟨_, rfl⟩

/-- A negative power of ten can always be scaled by. -/
theorem exists_scale_of_neg (s : Nat) (h : e < 0) : ∃ x, scale s e = .ok x :=
  ⟨shrink 4 (Double.ofNat s) e, by rw [scale, if_neg (by omega)]⟩

/-- A power of ten that is cut off has two digits at most, and no product is out of range then. -/
theorem exists_scale_of_le (hs : s < 10 ^ 17) (h : e ≤ 40) : ∃ x, scale s e = .ok x := by
  rcases Int.lt_or_le e 0 with hneg | hnonneg
  · exact exists_scale_of_neg s hneg
  obtain ⟨n, rfl⟩ := Int.eq_ofNat_of_zero_le hnonneg
  rcases Nat.eq_zero_or_pos s with rfl | hpos
  · have hzero : ∃ sign, (Double.ofNat 0).mul (Double.powerOfTen n) = Double.zero sign := by
      have hnum : (Double.ofNat 0).ratio.1 = 0 := by decide
      rw [Double.mul, hnum, Nat.zero_mul]
      exact ⟨_, rfl⟩
    obtain ⟨sign, hzero⟩ := hzero
    have hfinite : (Double.zero sign).isInfinite = false := by cases sign <;> decide
    refine ⟨Double.zero sign, ?_⟩
    unfold scale
    rw [if_pos hnonneg, if_pos (by omega), Int.toNat_natCast]
    simp only [hzero, hfinite, Bool.false_eq_true, if_false]
  · obtain ⟨m, hround, heq⟩ := scalesFrom_mul hpos hs (show n ≤ 308 by omega)
    have hpower : (Double.powerOfTen n).value ≤ 2 ^ 161 := by
      have hn : n ≤ 40 := by omega
      calc (Double.powerOfTen n).value ≤ (1 + (59 : Nat) / 2 ^ 59) * 10 ^ n :=
            (Double.within_powerOfTen (Double.powerWithin_of_le (by omega))).right
        _ ≤ 2 * 16 ^ n := by gcongr <;> norm_num
        _ ≤ 2 * 16 ^ 40 := by gcongr; norm_num
        _ = 2 ^ 161 := by norm_num
    have hfinite : m < Double.infiniteMagnitude := by
      apply hround.lt_infiniteMagnitude
      calc (Double.ofNat s).value * (Double.powerOfTen n).value ≤ 2 ^ 60 * 2 ^ 161 :=
            mul_le_mul (Double.ofNat_le hpos hs) hpower (Double.powerOfTen_pos (by omega)).le (by positivity)
        _ = 2 ^ (221 : Int) := by rw [← pow_add]; rfl
        _ ≤ 2 ^ (1023 : Int) := zpow_le_zpow_right₀ (by norm_num) (by norm_num)
    exact ⟨_, by rw [heq, ranged, if_pos hfinite]⟩

/-- Digits that are cut off stand for less than a tenth. -/
theorem ten_mul_le_of_cutOf {q : List Char} (h : CutOf q ds) : 10 * numberOfDigits q ≤ numberOfDigits ds := by
  obtain ⟨c, rest, rfl⟩ := h
  rw [numberOfDigits_append, Nat.ofDigitChars_cons]
  exact (Nat.le_add_right _ _).trans (le_ofDigitChars _ _)

/-- The exponent of a numeral runs out when it is cut off. -/
theorem runsOut_readExponent {q : List Char} {down : Bool} (hs : s < 10 ^ 17) (he : e ≤ 0)
    (hds : ∀ c ∈ ds, c.isDigit = true) (hlt : numberOfDigits ds < 400) (hq : CutOf q (signOf down :: ds)) :
    RunsOut (readExponent negative s e q) := by
  rcases cutOf_cons hq with rfl | ⟨r, rfl, hr⟩
  · exact .inl rfl
  by_cases hne : r = []
  · subst hne
    cases down <;> exact .inl rfl
  · -- What is left of an exponent of three digits has two, and no number is out of range with it.
    have hcut := ten_mul_le_of_cutOf hr
    have hfit : numberOfDigits r ≤ maxExponent := by
      unfold maxExponent
      omega
    rw [readExponent_digits down hne (fun c hc => hds c (hr.subset hc)) hfit]
    apply runsOut_scale
    apply exists_scale_of_le hs
    cases down with
    | true => simp only [exponentValue]; omega
    | false => simp only [exponentValue]; omega

namespace Numeral

variable {n : Numeral} {negative : Bool} {q : List Char}

/-- A numeral has at most 17 digits. -/
theorem digits_lt (n : Numeral) : n.decimal.digits < 10 ^ 17 :=
  n.short

/-- A cut behind the fraction falls into the exponent. -/
theorem exists_of_cutOf_exponent (hq : CutOf q (exponentChars n.exponent)) :
    q = [] ∨ ∃ down ds r, n.exponent = some (down, ds) ∧ q = 'e' :: r ∧ CutOf r (signOf down :: ds) := by
  rcases hexp : n.exponent with _ | ⟨down, ds⟩
  · rw [hexp] at hq
    exact absurd hq not_cutOf_nil
  · rw [hexp] at hq
    exact (cutOf_cons hq).imp_right fun ⟨r, hr, hcut⟩ => ⟨down, ds, r, rfl, hr, hcut⟩

/-- So does the one of this numeral. -/
theorem runsOut_exponent {s : Nat} {e : Int} {r : List Char} {down : Bool} {ds : List Char} (hs : s < 10 ^ 17)
    (he : e ≤ 0) (hexp : n.exponent = some (down, ds)) (hr : CutOf r (signOf down :: ds)) :
    RunsOut (readExponent negative s e r) := by
  obtain ⟨-, hds, hlt⟩ := n.exponent_digits (down, ds) hexp
  exact runsOut_readExponent hs he hds hlt hr

/-- What stands behind the fraction runs out when it is cut off. -/
theorem runsOut_readTail {s : Nat} {e : Int} (hs : s < 10 ^ 17) (he : e < 0) (hq : CutOf q (exponentChars n.exponent)) :
    RunsOut (readTail negative s e q) := by
  rcases exists_of_cutOf_exponent hq with rfl | ⟨down, ds, r, hexp, rfl, hr⟩
  · rw [readTail_rest stops_nil]
    exact runsOut_scale (exists_scale_of_neg s he)
  · exact runsOut_exponent hs he.le hexp hr

/-- What stands behind the whole part runs out when it is cut off. -/
theorem runsOut_readPoint (hq : CutOf q (pointChars n.fraction ++ exponentChars n.exponent)) :
    RunsOut (readPoint negative (numberOfDigits n.whole) 0 q) := by
  have hwhole := n.whole_le.trans_lt n.digits_lt
  cases hfraction : n.fraction with
  | nil =>
    rw [hfraction] at hq
    rcases exists_of_cutOf_exponent hq with rfl | ⟨down, ds, r, hexp, rfl, hr⟩
    · exact .inr ⟨_, rfl⟩
    · exact runsOut_exponent hwhole (le_refl 0) hexp hr
  | cons c cs =>
    have hpoint : pointChars n.fraction = '.' :: n.fraction := by rw [hfraction]; rfl
    rw [hpoint] at hq
    rcases cutOf_cons hq with rfl | ⟨r, rfl, hr⟩
    · exact .inr ⟨_, rfl⟩
    rcases cutOf_append hr with hin | ⟨t, rfl, ht⟩
    · -- The cut falls into the fraction.
      by_cases hne : r = []
      · subst hne
        exact .inl rfl
      · have hle : Nat.ofDigitChars 10 r (numberOfDigits n.whole) ≤ n.decimal.digits := by
          obtain ⟨d, rest, hf⟩ := hin
          rw [← n.digits_eq, hf, Nat.ofDigitChars_append]
          exact le_ofDigitChars _ _
        have hread := readPoint_fraction negative hne (fun c hc => n.fraction_digits c (hin.subset hc))
          (n.fits hle) stops_nil
        rw [List.append_nil] at hread
        rw [hread, readTail_rest stops_nil]
        apply runsOut_scale
        apply exists_scale_of_neg
        have hlength := List.length_pos_of_ne_nil hne
        omega
    · have hne : n.fraction ≠ [] := hfraction ▸ List.cons_ne_nil c cs
      rw [readPoint_fraction negative hne n.fraction_digits (n.fits n.digits_eq.le) (n.stops_exponent.cut ht),
        n.digits_eq]
      apply runsOut_readTail n.digits_lt _ ht
      have hlength := List.length_pos_of_ne_nil hne
      omega

/-- A numeral that is cut off is a number of its own, or a digit is missing at its end. -/
theorem readNumber_cut (hq : CutOf q n.chars) : RunsOut (readNumber negative q) := by
  rcases cutOf_append hq with hin | ⟨r, rfl, hr⟩
  · -- The cut falls into the whole part.
    by_cases hne : q = []
    · subst hne
      exact .inl rfl
    · have hle : numberOfDigits q ≤ n.decimal.digits := by
        have hcut := ten_mul_le_of_cutOf hin
        have hwhole := n.whole_le
        omega
      have hread := readNumber_whole negative (n.leads.cut hin hne)
        (fun d hd => n.whole_digits d (hin.subset hd)) (n.fits hle) stops_nil
      rw [List.append_nil] at hread
      rw [hread]
      exact .inr ⟨_, rfl⟩
  · rw [readNumber_whole negative n.leads n.whole_digits (n.fits n.whole_le) (n.stops_tail.cut hr)]
    exact runsOut_readPoint hr

end Numeral

end Json

/-! ## Written decimals -/

namespace Decimal

open Json (Numeral pointChars exponentChars exponentValue signOf)

variable {d : Decimal}

/-- The decimal that stands in the text of a decimal. A whole number in plain layout gets a fraction, and with it a
digit more. -/
def written (d : Decimal) : Decimal :=
  if Layout.json.isPlain d.leading && decide (0 ≤ d.exponent) then
    ⟨d.digits * tenPow (d.exponent.toNat + 1), -1⟩
  else d

/-- A digit more in the text does not change the value. -/
theorem value_written (d : Decimal) : d.written.value = d.value := by
  unfold written
  split_ifs with h
  · have hsign : 0 ≤ d.exponent := by simpa using (Bool.and_eq_true_iff.mp h).2
    unfold value
    rw [ten_zpow_eq_cast hsign, Nat.cast_mul, cast_tenPow, cast_tenPow, pow_succ, zpow_neg, zpow_one]
    ring
  · rfl

/-- A point in a plain decimal stands behind a single zero or behind digits of the number. -/
theorem leads_of_plain {whole fraction : List Char} (hpos : 0 < d.digits) (hexp : d.exponent < 0)
    (hw : ∀ c ∈ whole, c.isDigit = true) (hne : whole ≠ []) (h : d.plain = whole ++ '.' :: fraction) : Leads whole := by
  obtain ⟨c, cs, rfl⟩ := List.exists_cons_of_ne_nil hne
  by_cases hc : c = '0'
  · subst hc
    simp only [plain, if_neg (not_le.mpr hexp)] at h
    split at h
    · rename_i hplaces
      obtain ⟨a, as, has⟩ := List.exists_cons_of_ne_nil (digitsOf_ne_nil d.digits)
      obtain ⟨k, hk⟩ : ∃ k, (digitsOf d.digits).length - (-d.exponent).toNat = k + 1 :=
        ⟨(digitsOf d.digits).length - (-d.exponent).toNat - 1, by omega⟩
      rw [hk, has] at h
      exact absurd (List.cons.inj h).1 (ne_zero_of_digitsOf hpos.ne' has)
    · cases cs with
      | nil => exact .inl rfl
      | cons b bs =>
        have hb := hw b (List.mem_cons_of_mem _ List.mem_cons_self)
        rw [← (List.cons.inj (List.cons.inj h).2).1] at hb
        cases hb
  · exact .inr ⟨c, cs, rfl, hc⟩

/-- The text of a decimal is a numeral that stands for it. -/
def WrittenAs (d : Decimal) (n : Numeral) : Prop :=
  n.chars = Layout.json.decimal d ∧ n.decimal = d.written

/-- Plain layout is for decimals from a hundred thousandth to below ten quadrillion. -/
theorem isPlain_iff : Layout.json.isPlain d.leading = true ↔ -5 ≤ d.leading ∧ d.leading ≤ 15 :=
  decide_eq_true_iff

/-- A whole number in plain layout is written as a numeral. -/
theorem exists_numeral_whole (hplain : Layout.json.isPlain d.leading = true) (hexp : 0 ≤ d.exponent)
    (hlead : Leads (digitsOf d.digits ++ List.replicate d.exponent.toNat '0')) : ∃ n, d.WrittenAs n := by
  have hzeros : digitsOf d.digits ++ List.replicate d.exponent.toNat '0' ++ ['0'] =
      digitsOf d.digits ++ List.replicate (d.exponent.toNat + 1) '0' := by
    rw [List.replicate_succ', List.append_assoc]
  have hdigits : numberOfDigits (digitsOf d.digits ++ List.replicate d.exponent.toNat '0' ++ ['0']) =
      d.digits * tenPow (d.exponent.toNat + 1) := by
    rw [hzeros, numberOfDigits_append_zeros, numberOfDigits_digitsOf]
  have hshort : d.digits * tenPow (d.exponent.toNat + 1) < 10 ^ 17 := by
    have hlt := lt_ten_pow_length_digitsOf d.digits
    have hlength : (digitsOf d.digits).length + (d.exponent.toNat + 1) ≤ 17 := by
      have hle := (isPlain_iff.mp hplain).2
      unfold leading at hle
      omega
    calc d.digits * tenPow (d.exponent.toNat + 1) <
          10 ^ (digitsOf d.digits).length * 10 ^ (d.exponent.toNat + 1) :=
        Nat.mul_lt_mul_of_pos_right hlt (tenPow_pos _)
      _ = 10 ^ ((digitsOf d.digits).length + (d.exponent.toNat + 1)) := (pow_add _ _ _).symm
      _ ≤ 10 ^ 17 := Nat.pow_le_pow_right (by decide) hlength
  refine ⟨{ whole := digitsOf d.digits ++ List.replicate d.exponent.toNat '0', fraction := ['0'], exponent := none,
            whole_digits := ?_, leads := hlead, fraction_digits := ?_, exponent_digits := nofun, broken := ?_,
            short := hdigits ▸ hshort }, ?_, ?_⟩
  · exact List.forall_mem_append.mpr ⟨fun _ => isDigit_of_mem_digitsOf, fun _ => isDigit_of_mem_zeros⟩
  · exact List.forall_mem_singleton.mpr rfl
  · exact .inl (List.cons_ne_nil _ _)
  · have hkeeps : Layout.json.keepsFraction = true := rfl
    simp [Numeral.chars, pointChars, exponentChars, Layout.decimal, hplain, hkeeps, hexp, plain]
  · simp only [Numeral.decimal, written, hplain, hdigits, hexp, decide_true, Bool.and_self, if_true, exponentValue]
    rfl

/-- So is a number with a fraction in plain layout. -/
theorem exists_numeral_fraction (hpos : 0 < d.digits) (hdigits : d.digits < 10 ^ 17)
    (hplain : Layout.json.isPlain d.leading = true) (hexp : d.exponent < 0) : ∃ n, d.WrittenAs n := by
  rcases plain_cases d with ⟨hnonneg, -⟩ | ⟨-, whole, fraction, hne, hw, hf, htext, hlength, hnum⟩
  · omega
  have hfraction : fraction ≠ [] := by
    rintro rfl
    simp only [List.length_nil] at hlength
    omega
  refine ⟨{ whole := whole, fraction := fraction, exponent := none, whole_digits := hw,
            leads := leads_of_plain hpos hexp hw hne htext, fraction_digits := hf, exponent_digits := nofun,
            broken := .inl hfraction, short := hnum.symm ▸ hdigits }, ?_, ?_⟩
  · have hpoint : pointChars fraction = '.' :: fraction := by
      cases fraction with
      | nil => exact absurd rfl hfraction
      | cons c cs => rfl
    have hsign : ¬ 0 ≤ d.exponent := by omega
    simp [Numeral.chars, hpoint, exponentChars, Layout.decimal, hplain, hsign, htext]
  · have hsign : ¬ 0 ≤ d.exponent := by omega
    simp only [Numeral.decimal, written, hnum, hsign, decide_false, Bool.and_false, Bool.false_eq_true, if_false,
      exponentValue, hlength, sub_neg_eq_add, zero_add]

/-- So is a number with an exponent. -/
theorem exists_numeral_scientific (hpos : 0 < d.digits) (hdigits : d.digits < 10 ^ 17) (hlead : d.leading.natAbs < 400)
    (hplain : Layout.json.isPlain d.leading = false) : ∃ n, d.WrittenAs n := by
  obtain ⟨first, others, hds⟩ := List.exists_cons_of_ne_nil (digitsOf_ne_nil d.digits)
  have hall : ∀ c ∈ first :: others, c.isDigit = true := fun c hc => isDigit_of_mem_digitsOf (hds ▸ hc)
  have hnum : numberOfDigits (first :: others) = d.digits := by rw [← hds, numberOfDigits_digitsOf]
  refine ⟨{ whole := [first], fraction := others,
            exponent := some (decide (d.leading < 0), digitsOf d.leading.natAbs),
            whole_digits := fun c hc => hall c (by simp_all),
            leads := .inr ⟨first, [], rfl, ne_zero_of_digitsOf hpos.ne' hds⟩,
            fraction_digits := fun c hc => hall c (List.mem_cons_of_mem _ hc), exponent_digits := ?_,
            broken := .inr (Option.some_ne_none _), short := hnum.symm ▸ hdigits }, ?_, ?_⟩
  · rintro p ⟨⟩
    exact ⟨digitsOf_ne_nil _, fun _ => isDigit_of_mem_digitsOf, by rwa [numberOfDigits_digitsOf]⟩
  · cases others with
    | nil => simp [Numeral.chars, pointChars, exponentChars, Layout.decimal, hplain, scientific, hds, signOf]
    | cons c cs => simp [Numeral.chars, pointChars, exponentChars, Layout.decimal, hplain, scientific, hds, signOf]
  · have hpower : exponentValue (some (decide (d.leading < 0), digitsOf d.leading.natAbs)) = d.leading := by
      by_cases hneg : d.leading < 0
      · simp only [hneg, decide_true, exponentValue, numberOfDigits_digitsOf]
        omega
      · simp only [hneg, decide_false, exponentValue, numberOfDigits_digitsOf]
        omega
    have hexponent : d.leading - others.length = d.exponent := by
      unfold leading
      rw [hds, List.length_cons]
      omega
    simp only [Numeral.decimal, List.singleton_append, hnum, hpower, hexponent, written, hplain, Bool.false_and,
      Bool.false_eq_true, if_false]

end Decimal

/-! ## Numbers that are read back -/

namespace Double

open Json (Numeral scale ranged slack RunsOut readValue readNumber floatChars)

/-- The decimal in the JSON text of a finite number. -/
def jsonDecimal (x : Double) : Decimal :=
  (x.shortest Layout.json.tie).written

/-- What the JSON text of a number is read as. -/
def restored (x : Double) : Double :=
  if x.isFinite then
    match scale x.jsonDecimal.digits x.jsonDecimal.exponent with
    | .ok y => if x.isNegative then y.negate else y
    | .error _ => x
  else x

section Restored

variable {x : Double}

/-- The shortest decimal of zero is zero. -/
theorem shortest_of_zero (tie : Tie) (hzero : x.magnitude = 0) : x.shortest tie = ⟨0, 0⟩ := by
  have hz : x.isZero = true := decide_eq_true hzero
  unfold shortest
  rw [hz, if_pos rfl]

/-- The text of a double that is finite is a numeral. -/
theorem exists_numeral (hfinite : x.magnitude < infiniteMagnitude) : ∃ n, (x.shortest Layout.json.tie).WrittenAs n := by
  rcases Nat.eq_zero_or_pos x.magnitude with hzero | hpos
  · rw [shortest_of_zero _ hzero]
    exact Decimal.exists_numeral_whole (by decide) (le_refl 0) (.inl rfl)
  have hholds := holds_shortest Layout.json.tie hpos
  have hdigits := shortest_digits_lt Layout.json.tie hpos
  generalize x.shortest Layout.json.tie = d at hholds hdigits ⊢
  have hdpos := digits_pos_of_holds hpos hholds
  cases hplain : Layout.json.isPlain d.leading with
  | true =>
    rcases Int.lt_or_le d.exponent 0 with hneg | hnonneg
    · exact Decimal.exists_numeral_fraction hdpos hdigits hplain hneg
    · obtain ⟨c, cs, hcs⟩ := List.exists_cons_of_ne_nil (digitsOf_ne_nil d.digits)
      refine Decimal.exists_numeral_whole hplain hnonneg (.inr ⟨c, cs ++ List.replicate d.exponent.toNat '0', ?_, ?_⟩)
      · rw [hcs, List.cons_append]
      · exact ne_zero_of_digitsOf hdpos.ne' hcs
  | false =>
    have hlow := decimal_leading_ge hpos hholds
    have hhigh := decimal_exponent_le hfinite hdpos.ne' hholds
    have hlength : (digitsOf d.digits).length ≤ 17 := (Nat.length_toDigits_le_iff (by decide) (by decide)).mpr hdigits
    have hlead : d.leading.natAbs < 400 := by
      unfold Decimal.leading at hlow ⊢
      omega
    exact Decimal.exists_numeral_scientific hdpos hdigits hlead hplain

/-- The largest numbers, the only ones for which the error of the reader could lead out of range. -/
theorem scale_isOk_of_largest : ∀ negative : Bool, ∀ k < 3,
    (scale (ofMagnitude negative (infiniteMagnitude - 1 - k)).jsonDecimal.digits
      (ofMagnitude negative (infiniteMagnitude - 1 - k)).jsonDecimal.exponent).isOk = true := by
  decide +kernel

/-- The slack is three units at most. -/
theorem slack_le (d : Decimal) : slack d ≤ 3 := by
  unfold slack
  split
  · omega
  · split <;> omega

/-- The text of a finite number is read as a finite number near it. -/
theorem exists_scale_jsonDecimal (hfinite : x.magnitude < infiniteMagnitude) :
    ∃ m, scale x.jsonDecimal.digits x.jsonDecimal.exponent = .ok (ofMagnitude false m) ∧ m < infiniteMagnitude ∧
      Near (slack x.jsonDecimal) x.magnitude m := by
  rcases Nat.eq_zero_or_pos x.magnitude with hzero | hpos
  · unfold jsonDecimal
    rw [shortest_of_zero _ hzero, hzero]
    exact ⟨0, rfl, by decide, Nat.zero_le _, Nat.zero_le _⟩
  obtain ⟨n, -, hdecimal⟩ := exists_numeral hfinite
  have hdigits : x.jsonDecimal.digits < 10 ^ 17 := by
    rw [jsonDecimal, ← hdecimal]
    exact n.digits_lt
  have hholds : (RoundingInterval.of x).Holds x.jsonDecimal.value := by
    rw [jsonDecimal, Decimal.value_written]
    exact holds_shortest _ hpos
  obtain ⟨m, hscale, hnear⟩ := Json.near_scale hpos hfinite hdigits hholds
  by_cases hm : m < infiniteMagnitude
  · rw [ranged, if_pos hm] at hscale
    exact ⟨m, hscale, hm, hnear⟩
  · -- Only the largest numbers come that near, and they are read.
    rw [ranged, if_neg hm] at hscale
    have hslack := slack_le x.jsonDecimal
    have hle := hnear.2
    have hok := scale_isOk_of_largest x.isNegative (infiniteMagnitude - 1 - x.magnitude) (by omega)
    rw [show infiniteMagnitude - 1 - (infiniteMagnitude - 1 - x.magnitude) = x.magnitude by omega,
      ofMagnitude_isNegative_magnitude, hscale] at hok
    cases hok

/-- A finite double is restored to what its decimal is scaled to, with its sign. -/
theorem restored_eq (hfinite : x.isFinite = true) {m : Nat} (hm : m < infiniteMagnitude)
    (hscale : scale x.jsonDecimal.digits x.jsonDecimal.exponent = .ok (ofMagnitude false m)) :
    x.restored = ofMagnitude x.isNegative m := by
  have hmag := (ofMagnitude_min false hm).2
  unfold restored
  rw [if_pos hfinite, hscale]
  cases x.isNegative with
  | false => rfl
  | true =>
    simp only [if_true, negate, hmag, isNegative_ofMagnitude]
    rfl

/-- A finite number comes back with its sign, finite, and near. -/
theorem restored_near (hfinite : x.isFinite = true) :
    x.restored.isNegative = x.isNegative ∧ x.restored.isFinite = true ∧
      Near (slack x.jsonDecimal) x.magnitude x.restored.magnitude := by
  obtain ⟨m, hscale, hm, hnear⟩ := exists_scale_jsonDecimal (of_decide_eq_true hfinite)
  have hmag := (ofMagnitude_min x.isNegative hm).2
  rw [restored_eq hfinite hm hscale, isFinite, hmag]
  exact ⟨isNegative_ofMagnitude _ _, decide_eq_true hm, hnear⟩

/-- A double that is written and read back is finite exactly when it was. -/
theorem isFinite_restored (x : Double) : x.restored.isFinite = x.isFinite := by
  cases hfinite : x.isFinite with
  | true => exact (restored_near hfinite).2.1
  | false =>
    unfold restored
    rw [hfinite, if_neg Bool.false_ne_true, hfinite]

/-- A finite double is written as its sign and a numeral. -/
theorem floatChars_eq (hfinite : x.isFinite = true) {n : Numeral} (hn : (x.shortest Layout.json.tie).WrittenAs n) :
    floatChars x = (if x.isNegative then ['-'] else []) ++ n.chars := by
  rw [floatChars, if_pos hfinite, Layout.write, hn.1]

/-- A numeral begins with a digit. -/
theorem exists_digit_cons_chars (n : Numeral) : ∃ c cs, n.chars = c :: cs ∧ c.isDigit = true := by
  have hne : n.whole ≠ [] := by
    rcases n.leads with h | ⟨c, cs, h, -⟩
    all_goals
      rw [h]
      exact List.cons_ne_nil _ _
  obtain ⟨c, cs, hcs⟩ := List.exists_cons_of_ne_nil hne
  rw [Numeral.chars, hcs, List.cons_append]
  exact ⟨c, _, rfl, n.whole_digits c (hcs ▸ List.mem_cons_self)⟩

/-- The JSON text of a finite number is read. -/
theorem readValue_floatChars (hfinite : x.isFinite = true) :
    readValue 0 (floatChars x) = .ok (.float x.restored, []) := by
  obtain ⟨n, hn⟩ := exists_numeral (of_decide_eq_true hfinite)
  obtain ⟨m, hscale, hm, -⟩ := exists_scale_jsonDecimal (of_decide_eq_true hfinite)
  have hread := n.readNumber_chars x.isNegative
  rw [hn.2, ← jsonDecimal, hscale] at hread
  have hsigned : Json.signed x.isNegative (ofMagnitude false m) = .float x.restored := by
    unfold restored
    rw [if_pos hfinite, hscale]
    rfl
  rw [Except.map, hsigned] at hread
  rw [floatChars_eq hfinite hn, ← hread]
  obtain ⟨c, cs, hcs, hc⟩ := exists_digit_cons_chars n
  cases x.isNegative with
  | true => exact Json.readValueWith_minus rfl
  | false =>
    rw [hcs]
    exact Json.readValueWith_digit (Json.skipBlanks_digit hc) hc

/-- A number that is cut off is another number, or its text ends too early. -/
theorem runsOut_floatChars (hfinite : x.isFinite = true) (d : Nat) {p : List Char} (hp : CutOf p (floatChars x)) :
    RunsOut (readValue d p) := by
  obtain ⟨array, object, hvalue⟩ := Json.exists_readValue_eq d
  obtain ⟨n, hn⟩ := exists_numeral (of_decide_eq_true hfinite)
  rw [hvalue]
  rw [floatChars_eq hfinite hn] at hp
  cases hsign : x.isNegative with
  | true =>
    rw [hsign] at hp
    rcases cutOf_cons hp with rfl | ⟨q, rfl, hq⟩
    · exact .inl rfl
    · rw [Json.readValueWith_minus rfl]
      exact n.readNumber_cut hq
  | false =>
    rw [hsign, if_neg Bool.false_ne_true, List.nil_append] at hp
    obtain ⟨c, cs, hcs, hc⟩ := exists_digit_cons_chars n
    rcases cutOf_cons (hcs ▸ hp) with rfl | ⟨q, rfl, -⟩
    · exact .inl rfl
    · rw [Json.readValueWith_digit (Json.skipBlanks_digit hc) hc]
      exact n.readNumber_cut hp

end Restored

end Double

end MetricQuery
