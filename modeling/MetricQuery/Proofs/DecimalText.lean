import MetricQuery.Number.Decimal
import MetricQuery.Proofs.Scanning

/-!
# Decimals in plain layout

What is written with all places is read back as the same decimal: `ofText?_plain`. A decimal with a
nonnegative exponent comes back with its zeros among the digits, every other one comes back as it was.
-/

set_option autoImplicit false

namespace MetricQuery

/-- A number is written in digits. -/
theorem isDigit_of_mem_digitsOf {n : Nat} {c : Char} (h : c ∈ digitsOf n) : c.isDigit = true :=
  Nat.isDigit_of_mem_toDigits (by decide) (by decide) h

/-- A number has at least one digit. -/
theorem digitsOf_ne_nil (n : Nat) : digitsOf n ≠ [] :=
  Nat.toDigits_ne_nil

/-- Digits are read as the library reads them. -/
theorem numberOfDigits_eq (ds : List Char) : numberOfDigits ds = Nat.ofDigitChars 10 ds 0 :=
  rfl

/-- The digits of a number are read as the number. -/
@[simp]
theorem numberOfDigits_digitsOf (n : Nat) : numberOfDigits (digitsOf n) = n :=
  Nat.ofDigitChars_ten_toDigits

/-- Zeros behind the digits are powers of ten. -/
theorem numberOfDigits_append_zeros (ds : List Char) (n : Nat) :
    numberOfDigits (ds ++ List.replicate n '0') = numberOfDigits ds * tenPow n := by
  rw [numberOfDigits_eq, Nat.ofDigitChars_append, Nat.ofDigitChars_replicate_zero, Nat.mul_comm]
  rfl

/-- Zeros before the digits do not count. -/
theorem numberOfDigits_zeros_append (n : Nat) (ds : List Char) :
    numberOfDigits (List.replicate n '0' ++ ds) = numberOfDigits ds := by
  rw [numberOfDigits_eq, Nat.ofDigitChars_append, Nat.ofDigitChars_replicate_zero, Nat.mul_zero]
  rfl

/-- Zeros are digits. -/
theorem isDigit_of_mem_zeros {n : Nat} {c : Char} (h : c ∈ List.replicate n '0') :
    c.isDigit = true := by
  rw [List.eq_of_mem_replicate h]
  rfl

namespace Decimal

/-- Digits are read up to where they stop. -/
theorem spanDigits_append {ds rest : List Char} (hds : ∀ c ∈ ds, c.isDigit = true)
    (hrest : Stops Char.isDigit rest) : spanDigits (ds ++ rest) = (ds, rest) := by
  unfold spanDigits
  rw [takeWhile_append_of_stops hds hrest, dropWhile_append_of_stops hds hrest]

/-- A text of digits is read to its end. -/
theorem spanDigits_all {ds : List Char} (hds : ∀ c ∈ ds, c.isDigit = true) :
    spanDigits ds = (ds, []) := by
  have h := spanDigits_append hds (@stops_nil Char.isDigit)
  rwa [List.append_nil] at h

/-- Digits alone are a whole number. -/
theorem ofText?_whole {ds : List Char} (hds : ∀ c ∈ ds, c.isDigit = true) (hne : ds ≠ []) :
    ofText? ds = some ⟨numberOfDigits ds, 0⟩ := by
  unfold ofText?
  rw [spanDigits_all hds]
  simp [readExponent?, hne]

/-- Digits around a point. -/
theorem ofText?_fraction {whole fraction : List Char} (hw : ∀ c ∈ whole, c.isDigit = true)
    (hf : ∀ c ∈ fraction, c.isDigit = true) (hne : whole ≠ []) :
    ofText? (whole ++ '.' :: fraction) =
      some ⟨numberOfDigits (whole ++ fraction), -(fraction.length : Int)⟩ := by
  have hpoint : Stops Char.isDigit ('.' :: fraction) := stops_cons.mpr rfl
  unfold ofText?
  rw [spanDigits_append hw hpoint]
  simp [spanDigits_all hf, readExponent?, hne]

/-- The plain layout is digits, with a point between two runs of them when there is a fraction. -/
theorem plain_cases (d : Decimal) :
    (0 ≤ d.exponent ∧ d.plain = digitsOf d.digits ++ List.replicate d.exponent.toNat '0') ∨
    (d.exponent < 0 ∧ ∃ whole fraction : List Char, whole ≠ [] ∧
      (∀ c ∈ whole, c.isDigit = true) ∧ (∀ c ∈ fraction, c.isDigit = true) ∧
      d.plain = whole ++ '.' :: fraction ∧ (fraction.length : Int) = -d.exponent ∧
      numberOfDigits (whole ++ fraction) = d.digits) := by
  have hdigits : ∀ c ∈ digitsOf d.digits, c.isDigit = true := fun _ => isDigit_of_mem_digitsOf
  by_cases he : 0 ≤ d.exponent
  · exact .inl ⟨he, by simp only [plain, if_pos he]⟩
  refine .inr ⟨by omega, ?_⟩
  by_cases hp : (-d.exponent).toNat < (digitsOf d.digits).length
  · -- The point falls between the digits.
    refine ⟨(digitsOf d.digits).take ((digitsOf d.digits).length - (-d.exponent).toNat),
      (digitsOf d.digits).drop ((digitsOf d.digits).length - (-d.exponent).toNat), ?_, ?_, ?_, ?_, ?_, ?_⟩
    · intro h
      have hlen := congrArg List.length h
      rw [List.length_take, List.length_nil] at hlen
      omega
    · exact fun c hc => hdigits c (List.mem_of_mem_take hc)
    · exact fun c hc => hdigits c (List.mem_of_mem_drop hc)
    · simp only [plain, if_neg he, if_pos hp]
    · rw [List.length_drop]
      omega
    · rw [List.take_append_drop, numberOfDigits_digitsOf]
  · -- All digits stand behind the point, with zeros before them.
    refine ⟨['0'], List.replicate ((-d.exponent).toNat - (digitsOf d.digits).length) '0' ++
      digitsOf d.digits, by simp, ?_, ?_, ?_, ?_, ?_⟩
    · exact List.forall_mem_singleton.mpr rfl
    · exact List.forall_mem_append.mpr ⟨fun c hc => isDigit_of_mem_zeros hc, hdigits⟩
    · simp only [plain, if_neg he, if_neg hp]
      rfl
    · rw [List.length_append, List.length_replicate]
      omega
    · have hzeros : ['0'] = List.replicate 1 '0' := rfl
      rw [← List.append_assoc, hzeros, List.replicate_append_replicate, numberOfDigits_zeros_append,
        numberOfDigits_digitsOf]

/-- The plain layout holds digits and a point only. -/
theorem isDigit_or_point_of_mem_plain {d : Decimal} {c : Char} (h : c ∈ d.plain) :
    c.isDigit = true ∨ c = '.' := by
  rcases plain_cases d with ⟨-, hplain⟩ | ⟨-, whole, fraction, -, hw, hf, hplain, -, -⟩
  · rw [hplain, List.mem_append] at h
    rcases h with h | h
    · exact .inl (isDigit_of_mem_digitsOf h)
    · exact .inl (isDigit_of_mem_zeros h)
  · rw [hplain, List.mem_append, List.mem_cons] at h
    rcases h with h | rfl | h
    · exact .inl (hw c h)
    · exact .inr rfl
    · exact .inl (hf c h)

/-- The plain layout begins with a digit. -/
theorem exists_digit_cons_plain (d : Decimal) :
    ∃ c rest, d.plain = c :: rest ∧ c.isDigit = true := by
  rcases plain_cases d with ⟨-, hplain⟩ | ⟨-, whole, fraction, hne, hw, -, hplain, -, -⟩
  · obtain ⟨c, rest, hc⟩ := List.exists_cons_of_ne_nil (digitsOf_ne_nil d.digits)
    refine ⟨c, rest ++ List.replicate d.exponent.toNat '0', ?_, ?_⟩
    · rw [hplain, hc, List.cons_append]
    · exact isDigit_of_mem_digitsOf (hc ▸ List.mem_cons_self)
  · obtain ⟨c, rest, rfl⟩ := List.exists_cons_of_ne_nil hne
    exact ⟨c, rest ++ '.' :: fraction, hplain, hw c List.mem_cons_self⟩

/-- What the plain layout of a decimal reads back as: the same number of units of ten, with no power of
ten left over. -/
def spread (d : Decimal) : Decimal :=
  if 0 ≤ d.exponent then ⟨d.digits * tenPow d.exponent.toNat, 0⟩ else d

/-- The plain layout is read back. -/
theorem ofText?_plain (d : Decimal) : ofText? d.plain = some d.spread := by
  rcases plain_cases d with ⟨he, hplain⟩ | ⟨he, whole, fraction, hne, hw, hf, hplain, hlen, hnum⟩
  · have hds : ∀ c ∈ digitsOf d.digits ++ List.replicate d.exponent.toNat '0', c.isDigit = true :=
      List.forall_mem_append.mpr ⟨fun _ => isDigit_of_mem_digitsOf, fun _ => isDigit_of_mem_zeros⟩
    have hne : digitsOf d.digits ++ List.replicate d.exponent.toNat '0' ≠ [] :=
      List.append_ne_nil_of_left_ne_nil (digitsOf_ne_nil d.digits) _
    rw [hplain, ofText?_whole hds hne, numberOfDigits_append_zeros, numberOfDigits_digitsOf, spread,
      if_pos he]
  · rw [hplain, ofText?_fraction hw hf hne, hlen, hnum, Int.neg_neg, spread, if_neg (by omega)]

end Decimal

end MetricQuery
