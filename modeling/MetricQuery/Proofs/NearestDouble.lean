import MetricQuery.Number.Shortest
import Mathlib.Algebra.Order.Field.Power
import Mathlib.Tactic

/-!
# Rounding is right inside the interval

`RoundingInterval.of x` is computed from the bits of `x`, and `Double.ofRatio` rounds a ratio by a grid of
its own, found from the ratio alone. This module ties the two together: every ratio in the interval of
a positive finite number rounds to that number, `ofRatio_eq_of_holds`.

The one place where the grid of the ratio differs from that of the number is right below a power of
two, where the numbers lie twice as dense. There the rounded significand carries into the next exponent,
and the sum that makes up the bit pattern takes care of it.

Values are rational numbers here, with `2 ^ e` for any whole `e`.
-/

set_option autoImplicit false

namespace MetricQuery

/-- A shift multiplies a ratio by a power of two. -/
theorem shiftRatio_spec (num : Nat) {den : Nat} (hden : 0 < den) (shift : Int) :
    0 < (shiftRatio num den shift).2 ∧
    ((shiftRatio num den shift).1 : ℚ) / (shiftRatio num den shift).2 = num / den * 2 ^ shift := by
  have hden' : (den : ℚ) ≠ 0 := by exact_mod_cast hden.ne'
  unfold shiftRatio
  split
  · rename_i hshift
    refine ⟨hden, ?_⟩
    obtain ⟨n, rfl⟩ := Int.eq_ofNat_of_zero_le hshift
    simp only [Int.toNat_natCast, twoPow, Nat.pow_eq, Nat.cast_mul, Nat.cast_pow, Nat.cast_ofNat,
      zpow_natCast]
    ring
  · rename_i hshift
    obtain ⟨n, hn⟩ := Int.eq_ofNat_of_zero_le (show 0 ≤ -shift by omega)
    have hs : shift = -(n : Int) := by omega
    refine ⟨Nat.mul_pos hden (Nat.pow_pos (by decide)), ?_⟩
    rw [hs]
    simp only [Int.neg_neg, Int.toNat_natCast, twoPow, Nat.pow_eq, Nat.cast_mul, Nat.cast_pow,
      Nat.cast_ofNat, zpow_neg, zpow_natCast]
    field_simp

/-- `n` is the whole number nearest to `v`, and the even one where two are equally near. -/
structure IsNearest (v : ℚ) (n : Nat) : Prop where
  low : (n : ℚ) - 1 / 2 ≤ v
  high : v ≤ n + 1 / 2
  odd : n % 2 = 1 → (n : ℚ) - 1 / 2 < v ∧ v < n + 1 / 2

/-- There is one nearest number. -/
theorem IsNearest.unique {v : ℚ} {m n : Nat} (hm : IsNearest v m) (hn : IsNearest v n) : m = n := by
  -- Two nearest numbers stand on the two sides of a half, and there only the even one counts.
  have hno : ∀ {k : Nat}, IsNearest v k → ¬ IsNearest v (k + 1) := by
    intro k hk hk'
    have hsucc : ((k + 1 : Nat) : ℚ) = k + 1 := Nat.cast_succ k
    rcases Nat.mod_two_eq_zero_or_one k with heven | hodd
    · have hlow := (hk'.odd (by omega)).1
      have hhigh := hk.high
      linarith
    · have hhigh := (hk.odd hodd).2
      have hlow := hk'.low
      linarith
  have hmn : m ≤ n + 1 := by
    have hcast : (m : ℚ) ≤ n + 1 := by linarith [hm.low, hn.high]
    exact_mod_cast hcast
  have hnm : n ≤ m + 1 := by
    have hcast : (n : ℚ) ≤ m + 1 := by linarith [hn.low, hm.high]
    exact_mod_cast hcast
  by_contra hne
  rcases Nat.lt_or_gt_of_ne hne with hlt | hgt
  · obtain rfl : n = m + 1 := by omega
    exact hno hm hn
  · obtain rfl : m = n + 1 := by omega
    exact hno hn hm

/-- Division with rounding gives the nearest whole number. -/
theorem isNearest_roundDiv (a : Nat) {b : Nat} (hb : 0 < b) : IsNearest ((a : ℚ) / b) (roundDiv a b) := by
  have hbQ : (0 : ℚ) < b := by exact_mod_cast hb
  have hsplit : (a : ℚ) = b * (a / b : Nat) + (a % b : Nat) := by exact_mod_cast (Nat.div_add_mod a b).symm
  have hrest : a % b < b := Nat.mod_lt a hb
  have hquot : (a : ℚ) / b = (a / b : Nat) + (a % b : Nat) / b := by
    rw [hsplit]
    field_simp
  unfold roundDiv
  dsimp only
  generalize a / b = f at hquot ⊢
  generalize a % b = r at hquot hrest ⊢
  have hr : (0 : ℚ) ≤ (r : ℚ) / b := by positivity
  have hr' : (r : ℚ) / b < 1 := (div_lt_one hbQ).mpr (by exact_mod_cast hrest)
  have hsucc : ((f + 1 : Nat) : ℚ) = f + 1 := Nat.cast_succ f
  rw [hquot]
  split_ifs with hless hmore heven
  · have hhalf : (r : ℚ) / b < 1 / 2 := by
      rw [div_lt_iff₀ hbQ]
      have hcast : (2 * r : ℚ) < b := by exact_mod_cast hless
      linarith
    exact ⟨by linarith, by linarith, fun _ => ⟨by linarith, by linarith⟩⟩
  · have hhalf : 1 / 2 < (r : ℚ) / b := by
      rw [lt_div_iff₀ hbQ]
      have hcast : (b : ℚ) < 2 * r := by exact_mod_cast hmore
      linarith
    exact ⟨by linarith, by linarith, fun _ => ⟨by linarith, by linarith⟩⟩
  all_goals
    have hhalf : (r : ℚ) / b = 1 / 2 := by
      rw [div_eq_iff hbQ.ne']
      have hcast : (2 * r : ℚ) = b := by exact_mod_cast (show 2 * r = b by omega)
      linarith
    exact ⟨by linarith, by linarith, fun hodd => by omega⟩

/-- A quotient is rounded to the number that is nearest to it. -/
theorem roundDiv_eq_of_isNearest {a b n : Nat} (hb : 0 < b) (h : IsNearest ((a : ℚ) / b) n) : roundDiv a b = n :=
  (isNearest_roundDiv a hb).unique h

namespace Double

/-- A number lies between the power of two that its logarithm gives and the next. -/
theorem log2_spec {n : Nat} (h : 0 < n) :
    (2 : ℚ) ^ (Nat.log2 n : Int) ≤ n ∧ (n : ℚ) < 2 ^ ((Nat.log2 n : Int) + 1) := by
  constructor
  · rw [zpow_natCast]
    exact_mod_cast Nat.log2_self_le h.ne'
  · have hlt : n < 2 ^ (Nat.log2 n + 1) := Nat.lt_log2_self
    have hcast : (n : ℚ) < ((2 ^ (Nat.log2 n + 1) : Nat) : ℚ) := by exact_mod_cast hlt
    rw [pow_succ] at hcast
    push_cast at hcast
    rw [zpow_add₀ two_ne_zero, zpow_natCast, zpow_one]
    exact hcast

/-- The logarithms of its two parts bound a ratio within two binades. -/
theorem log2_sub_spec {num den : Nat} (hnum : 0 < num) (hden : 0 < den) :
    (2 : ℚ) ^ ((Nat.log2 num : Int) - Nat.log2 den - 1) ≤ (num : ℚ) / den ∧
      (num : ℚ) / den < 2 ^ ((Nat.log2 num : Int) - Nat.log2 den + 1) := by
  have hdenQ : (0 : ℚ) < den := by exact_mod_cast hden
  obtain ⟨hnumLow, hnumHigh⟩ := log2_spec hnum
  obtain ⟨hdenLow, hdenHigh⟩ := log2_spec hden
  constructor
  · rw [le_div_iff₀ hdenQ]
    calc (2 : ℚ) ^ ((Nat.log2 num : Int) - Nat.log2 den - 1) * den
        ≤ 2 ^ ((Nat.log2 num : Int) - Nat.log2 den - 1) * 2 ^ ((Nat.log2 den : Int) + 1) := by gcongr
      _ = 2 ^ (Nat.log2 num : Int) := by
        rw [← zpow_add₀ two_ne_zero]
        congr 1
        omega
      _ ≤ num := hnumLow
  · rw [div_lt_iff₀ hdenQ]
    calc (num : ℚ) < 2 ^ ((Nat.log2 num : Int) + 1) := hnumHigh
      _ = 2 ^ ((Nat.log2 num : Int) - Nat.log2 den + 1) * 2 ^ (Nat.log2 den : Int) := by
        rw [← zpow_add₀ two_ne_zero]
        congr 1
        omega
      _ ≤ 2 ^ ((Nat.log2 num : Int) - Nat.log2 den + 1) * den := by gcongr

/-- The binade of a ratio is the power of two below it. -/
theorem binade_spec {num den : Nat} (hnum : 0 < num) (hden : 0 < den) :
    (2 : ℚ) ^ binade num den ≤ (num : ℚ) / den ∧ (num : ℚ) / den < 2 ^ (binade num den + 1) := by
  obtain ⟨hlower, hupper⟩ := log2_sub_spec hnum hden
  unfold binade
  dsimp only
  generalize (Nat.log2 num : Int) - Nat.log2 den = guess at hupper hlower ⊢
  obtain ⟨hb, hvalue⟩ := shiftRatio_spec num hden (-guess)
  generalize shiftRatio num den (-guess) = p at hb hvalue ⊢
  have hbQ : (0 : ℚ) < p.2 := by exact_mod_cast hb
  have hpow : (0 : ℚ) < 2 ^ guess := by positivity
  rw [zpow_neg, ← div_eq_mul_inv] at hvalue
  -- Comparing the shifted ratio with one is comparing the ratio with the power of the guess.
  split_ifs with hcmp
  · refine ⟨?_, hupper⟩
    have hone : (1 : ℚ) ≤ (p.1 : ℚ) / p.2 := by
      rw [le_div_iff₀ hbQ, one_mul]
      exact_mod_cast hcmp
    rwa [hvalue, le_div_iff₀ hpow, one_mul] at hone
  · refine ⟨hlower, ?_⟩
    have hone : (p.1 : ℚ) / p.2 < 1 := by
      rw [div_lt_iff₀ hbQ, one_mul]
      exact_mod_cast Nat.lt_of_not_le hcmp
    rw [hvalue, div_lt_iff₀ hpow, one_mul] at hone
    rwa [sub_add_cancel]

/-! ## The parts of a bit pattern -/

/-- The bits but the sign are the exponent and the significand, added up. -/
theorem magnitude_eq (x : Double) :
    (x.magnitude : Int) = (x.exponent + 1074) * hiddenBit + x.significand := by
  have hlt := x.bits_lt
  unfold magnitude exponent significand exponentField fraction signBit hiddenBit
  split <;> omega

/-- A significand has 53 bits. -/
theorem significand_lt (x : Double) : x.significand < 2 ^ 53 := by
  unfold significand fraction hiddenBit
  split <;> omega

/-- No exponent is below that of the smallest doubles. -/
theorem exponent_ge (x : Double) : -1074 ≤ x.exponent := by
  unfold exponent
  omega

/-- Only numbers on the finest grid lack the leading one. -/
theorem hiddenBit_le_significand (x : Double) (h : -1074 < x.exponent) :
    hiddenBit ≤ x.significand := by
  unfold exponent at h
  unfold significand
  split
  · omega
  · omega

/-- The hidden bit stands for the power of two that it does. -/
theorem cast_hiddenBit : ((hiddenBit : Nat) : ℚ) = 2 ^ 52 := by
  unfold hiddenBit
  norm_num

/-- The exponent is above the lowest when its field is above one. -/
theorem exponentField_gt_one_iff (x : Double) : 1 < x.exponentField ↔ -1074 < x.exponent := by
  unfold exponent
  omega

/-- A double that is not zero has a significand that is not. -/
theorem significand_pos (x : Double) (h : 0 < x.magnitude) : 0 < x.significand := by
  by_contra hzero
  have heq := x.magnitude_eq
  have hge := x.exponent_ge
  by_cases hexp : -1074 < x.exponent
  · have hidden := x.hiddenBit_le_significand hexp
    unfold hiddenBit at hidden
    omega
  · have hexp' : x.exponent = -1074 := by omega
    rw [hexp'] at heq
    omega

end Double

/-! ## The interval -/

namespace RoundingInterval

/-- The lower border of an interval. -/
def lowValue (i : RoundingInterval) : ℚ := (i.low : ℚ) / i.den

/-- The value that an interval is around. -/
def midValue (i : RoundingInterval) : ℚ := (i.value : ℚ) / i.den

/-- The upper border of an interval. -/
def highValue (i : RoundingInterval) : ℚ := (i.high : ℚ) / i.den

/-- A value lies in the interval. -/
def Holds (i : RoundingInterval) (v : ℚ) : Prop :=
  if i.closed then i.lowValue ≤ v ∧ v ≤ i.highValue else i.lowValue < v ∧ v < i.highValue

/-- The inside of an interval belongs to it. -/
theorem holds_of_lt {i : RoundingInterval} {v : ℚ} (hlow : i.lowValue < v) (hhigh : v < i.highValue) :
    i.Holds v := by
  unfold Holds
  split
  · exact ⟨hlow.le, hhigh.le⟩
  · exact ⟨hlow, hhigh⟩

/-- A value in an interval is not below it. -/
theorem Holds.low_le {i : RoundingInterval} {v : ℚ} (h : i.Holds v) : i.lowValue ≤ v := by
  unfold Holds at h
  split at h
  · exact h.1
  · exact h.1.le

/-- Nor is it above it. -/
theorem Holds.le_high {i : RoundingInterval} {v : ℚ} (h : i.Holds v) : v ≤ i.highValue := by
  unfold Holds at h
  split at h
  · exact h.2
  · exact h.2.le

/-- In an open interval it does not lie on the border. -/
theorem Holds.lt_of_open {i : RoundingInterval} {v : ℚ} (h : i.Holds v) (hopen : i.closed = false) :
    i.lowValue < v ∧ v < i.highValue := by
  unfold Holds at h
  rw [hopen] at h
  exact h

section Of

variable (x : Double)

/-- The step of the grid in quarters, as the interval is written down. -/
theorem of_scale : 0 < (shiftRatio 1 1 (x.exponent - 2)).2 ∧
    ((shiftRatio 1 1 (x.exponent - 2)).1 : ℚ) / (shiftRatio 1 1 (x.exponent - 2)).2 =
      2 ^ x.exponent / 4 := by
  obtain ⟨hpos, hvalue⟩ := shiftRatio_spec 1 (show 0 < 1 by decide) (x.exponent - 2)
  refine ⟨hpos, ?_⟩
  rw [hvalue, zpow_sub₀ two_ne_zero]
  norm_num

/-- The denominator of an interval is not zero. -/
theorem of_den_pos : 0 < (of x).den :=
  (of_scale x).1

/-- The middle of an interval is the value of its double. -/
theorem of_midValue : (of x).midValue = x.significand * 2 ^ x.exponent := by
  have hscale := (of_scale x).2
  unfold midValue of
  push_cast
  rw [mul_div_assoc, hscale]
  ring

/-- Its upper border is half a unit above. -/
theorem of_highValue : (of x).highValue = (x.significand + 1 / 2) * 2 ^ x.exponent := by
  have hscale := (of_scale x).2
  unfold highValue of
  push_cast
  rw [mul_div_assoc, hscale]
  ring

/-- The lower end is half a step below the number, except above the denser grid of the binade before. -/
theorem of_lowValue (h : 0 < x.magnitude) :
    (of x).lowValue =
      (x.significand - (if x.significand = Double.hiddenBit ∧ -1074 < x.exponent then 1 / 4 else 1 / 2)) *
        2 ^ x.exponent := by
  have hscale := (of_scale x).2
  have hpos := x.significand_pos h
  unfold lowValue of
  simp only [x.exponentField_gt_one_iff]
  split_ifs with hdense
  · rw [Nat.cast_mul, Nat.cast_sub (by omega), mul_div_assoc, hscale]
    push_cast
    ring
  · rw [Nat.cast_mul, Nat.cast_sub (by omega), mul_div_assoc, hscale]
    push_cast
    ring

/-- It is closed when the significand is even. -/
theorem of_closed : (of x).closed = decide (x.significand % 2 = 0) :=
  rfl

end Of

end RoundingInterval

/-! ## Rounding back -/

namespace Double

open RoundingInterval

/-- A power of two is one power times another. -/
theorem two_zpow_add (q : Int) (k : Nat) : (2 : ℚ) ^ (q + k) = 2 ^ k * 2 ^ q := by
  rw [zpow_add₀ two_ne_zero, zpow_natCast, mul_comm]

/-- Powers of two are ordered as their exponents. -/
theorem lt_of_two_zpow_lt {m n : Int} (h : (2 : ℚ) ^ m < 2 ^ n) : m < n :=
  (zpow_lt_zpow_iff_right₀ (by norm_num : (1 : ℚ) < 2)).mp h

/-- The numbers near `v` lie on the grid with the step `2 ^ e`. -/
structure OnGrid (e : Int) (v : ℚ) : Prop where
  lowest : -1074 ≤ e
  below : v < 2 ^ (e + 53)
  above : e = -1074 ∨ 2 ^ (e + 52) ≤ v

/-- A value lies on the grid that its exponent gives. -/
theorem onGrid_gridExponent {num den : Nat} (hnum : 0 < num) (hden : 0 < den) :
    OnGrid (gridExponent num den) ((num : ℚ) / den) := by
  obtain ⟨hbinade, hbinade'⟩ := binade_spec hnum hden
  refine ⟨le_max_right _ _, ?_, ?_⟩
  · apply lt_of_lt_of_le hbinade'
    apply zpow_le_zpow_right₀ (by norm_num)
    have := le_max_left (binade num den - 52) (-1074)
    unfold gridExponent
    omega
  · unfold gridExponent
    rcases max_choice (binade num den - 52) (-1074) with hmax | hmax
    · right
      rw [hmax, show binade num den - 52 + 52 = binade num den by omega]
      exact hbinade
    · exact .inl hmax

section Holds

variable {x : Double} {v : ℚ} {e : Int}

/-- A value of the interval that reaches the leading digit of a grid lies on no coarser grid than the
number. -/
theorem le_exponent_of_holds (h : (of x).Holds v) (habove : e = -1074 ∨ 2 ^ (e + 52) ≤ v) :
    e ≤ x.exponent := by
  rcases habove with rfl | habove
  · exact x.exponent_ge
  have hpow : (0 : ℚ) < 2 ^ x.exponent := by positivity
  have hm : (x.significand : ℚ) + 1 ≤ 2 ^ 53 := by exact_mod_cast x.significand_lt
  have hhigh := h.le_high
  rw [of_highValue] at hhigh
  have hstep : (2 : ℚ) ^ (e + 52) < 2 ^ (x.exponent + 53) := by
    calc (2 : ℚ) ^ (e + 52) ≤ v := habove
      _ ≤ (x.significand + 1 / 2) * 2 ^ x.exponent := hhigh
      _ < 2 ^ 53 * 2 ^ x.exponent := mul_lt_mul_of_pos_right (by linarith) hpow
      _ = 2 ^ (x.exponent + 53) := (two_zpow_add x.exponent 53).symm
  have hlt := lt_of_two_zpow_lt hstep
  omega

/-- On the grid of the number, its significand is the nearest point to every value of the interval. -/
theorem isNearest_significand (hpos : 0 < x.magnitude) (h : (of x).Holds v) :
    IsNearest (v * 2 ^ (-x.exponent)) x.significand := by
  have hpow : (0 : ℚ) < 2 ^ x.exponent := by positivity
  have hshift : v * 2 ^ (-x.exponent) = v / 2 ^ x.exponent := by
    rw [zpow_neg]
    rfl
  have hlow := h.low_le
  have hhigh := h.le_high
  rw [of_lowValue x hpos] at hlow
  rw [of_highValue] at hhigh
  rw [hshift]
  constructor
  · rw [le_div_iff₀ hpow]
    refine le_trans ?_ hlow
    apply mul_le_mul_of_nonneg_right _ hpow.le
    split_ifs <;> linarith
  · exact (div_le_iff₀ hpow).mpr hhigh
  · -- An odd significand is not the first of its binade, and its interval has no ends.
    intro hodd
    have hopen : (of x).closed = false := by
      rw [of_closed]
      simp [hodd]
    have hneven : ¬ (x.significand = hiddenBit ∧ -1074 < x.exponent) := by
      rintro ⟨hfirst, -⟩
      rw [hfirst] at hodd
      cases hodd
    obtain ⟨hl, hh⟩ := h.lt_of_open hopen
    rw [of_lowValue x hpos, if_neg hneven] at hl
    rw [of_highValue] at hh
    exact ⟨(lt_div_iff₀ hpow).mpr hl, (div_lt_iff₀ hpow).mpr hh⟩

/-- A value of the interval that falls short of the leading digit on the grid of the number lies right
below a power of two. -/
theorem first_of_binade (hpos : 0 < x.magnitude) (h : (of x).Holds v) (hexp : -1074 < x.exponent)
    (hfine : v < 2 ^ (x.exponent + 52)) :
    x.significand = hiddenBit ∧ (2 ^ 52 - 1 / 4) * 2 ^ x.exponent ≤ v := by
  have hpow : (0 : ℚ) < 2 ^ x.exponent := by positivity
  have hlow := h.low_le
  rw [of_lowValue x hpos] at hlow
  have hfirst : x.significand = hiddenBit := by
    by_contra hne
    have hgt : hiddenBit + 1 ≤ x.significand := by
      have hidden := x.hiddenBit_le_significand hexp
      omega
    have hgt' : (2 : ℚ) ^ 52 + 1 ≤ x.significand := by
      rw [← cast_hiddenBit]
      exact_mod_cast hgt
    rw [if_neg (by simp [hne])] at hlow
    have hle : (2 : ℚ) ^ 52 * 2 ^ x.exponent ≤ (x.significand - 1 / 2) * 2 ^ x.exponent :=
      mul_le_mul_of_nonneg_right (by linarith) hpow.le
    have hfine' : v < 2 ^ 52 * 2 ^ x.exponent := lt_of_lt_of_eq hfine (two_zpow_add x.exponent 52)
    linarith
  rw [if_pos ⟨hfirst, hexp⟩, hfirst, cast_hiddenBit] at hlow
  exact ⟨hfirst, hlow⟩

/-- The significand that rounding finds on its own grid, together with the grid, is that of the
number. -/
theorem isNearest_of_holds (hpos : 0 < x.magnitude) (h : (of x).Holds v) (hgrid : OnGrid e v) :
    ∃ n : Nat, IsNearest (v * 2 ^ (-e)) n ∧ (x.magnitude : Int) = (e + 1074) * hiddenBit + n := by
  obtain ⟨hlowest, hbelow, habove⟩ := hgrid
  rcases Int.lt_or_eq_of_le (le_exponent_of_holds h habove) with hless | rfl
  · -- The value lies below a power of two, on the finer grid of the binade before.
    have hpow : (0 : ℚ) < 2 ^ x.exponent := by positivity
    have hfine : v < 2 ^ (x.exponent + 52) := by
      calc v < 2 ^ (e + 53) := hbelow
        _ ≤ 2 ^ (x.exponent + 52) := zpow_le_zpow_right₀ (by norm_num) (by omega)
    obtain ⟨hfirst, hlow⟩ := first_of_binade hpos h (by omega) hfine
    have hnext : e = x.exponent - 1 := by
      have hstep : (2 : ℚ) ^ (x.exponent + 51) < 2 ^ (e + 53) := by
        calc (2 : ℚ) ^ (x.exponent + 51) = 2 ^ 51 * 2 ^ x.exponent := two_zpow_add x.exponent 51
          _ < (2 ^ 52 - 1 / 4) * 2 ^ x.exponent := mul_lt_mul_of_pos_right (by norm_num) hpow
          _ ≤ v := hlow
          _ < 2 ^ (e + 53) := hbelow
      have hlt := lt_of_two_zpow_lt hstep
      omega
    have hshift : v * 2 ^ (-e) = v / 2 ^ x.exponent * 2 := by
      rw [hnext, show -(x.exponent - 1) = -x.exponent + 1 by omega, zpow_add₀ two_ne_zero, zpow_neg, zpow_one]
      ring
    have hlow' : (2 : ℚ) ^ 52 - 1 / 4 ≤ v / 2 ^ x.exponent := (le_div_iff₀ hpow).mpr hlow
    have hhigh' : v / 2 ^ x.exponent < 2 ^ 52 :=
      (div_lt_iff₀ hpow).mpr (lt_of_lt_of_eq hfine (two_zpow_add x.exponent 52))
    refine ⟨2 ^ 53, ⟨?_, ?_, by simp⟩, ?_⟩
    · rw [hshift]
      push_cast
      linarith
    · rw [hshift]
      push_cast
      linarith
    · -- The carry of the significand is one step of the exponent.
      rw [x.magnitude_eq, hfirst, hnext]
      unfold hiddenBit
      push_cast
      ring
  · exact ⟨x.significand, isNearest_significand hpos h, x.magnitude_eq⟩

end Holds

/-- The interval of a positive number holds positive values only. -/
theorem lowValue_pos {x : Double} (hpos : 0 < x.magnitude) : 0 < (of x).lowValue := by
  have hm : (1 : ℚ) ≤ x.significand := by exact_mod_cast x.significand_pos hpos
  rw [of_lowValue x hpos]
  apply mul_pos
  · split_ifs <;> linarith
  · positivity

/-- Every ratio in the interval of a positive finite number rounds to that number. -/
theorem ofRatio_eq_of_holds {x : Double} (hpos : 0 < x.magnitude)
    (hfinite : x.magnitude < infiniteMagnitude) (negative : Bool) {num den : Nat} (hden : 0 < den)
    (h : (of x).Holds ((num : ℚ) / den)) : ofRatio negative num den = ofMagnitude negative x.magnitude := by
  have hvalue : (0 : ℚ) < (num : ℚ) / den := lt_of_lt_of_le (lowValue_pos hpos) h.low_le
  have hnum : 0 < num := by
    rcases Nat.eq_zero_or_pos num with rfl | hnum
    · simp at hvalue
    · exact hnum
  have hgrid := onGrid_gridExponent hnum hden
  have hlowest := hgrid.lowest
  obtain ⟨n, hnear, hmag⟩ := isNearest_of_holds hpos h hgrid
  obtain ⟨hb, hshift⟩ := shiftRatio_spec num hden (-gridExponent num den)
  rw [← hshift] at hnear
  have hround := roundDiv_eq_of_isNearest hb hnear
  have hsum : (gridExponent num den + 1074).toNat * hiddenBit +
      roundDiv (shiftRatio num den (-gridExponent num den)).1
        (shiftRatio num den (-gridExponent num den)).2 = x.magnitude := by
    rw [hround]
    zify
    rw [Int.toNat_of_nonneg (by omega)]
    exact hmag.symm
  unfold ofRatio
  rw [if_neg hnum.ne']
  dsimp only
  rw [hsum, min_eq_left hfinite.le]

end Double

end MetricQuery
