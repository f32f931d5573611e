import MetricQuery.Proofs.ScaledDecimals

/-!
# Rounding to nearest, ties to even

The rule itself, without a grid or an interval: a number is what a value is rounded to if no finite number is nearer to
the value and, where another one is equally near, its significand is even. Values from half a step beyond the largest
number on are not rounded to a finite number at all. This is `NearestEven`, and at most one magnitude has it,
`NearestEven.magnitude_unique`.

Rounding on a grid follows the rule, `nearestEven_iff`. So does the reader of decimals, with its shortcuts for exponents
far out of range: `Decimal.toDouble_eq_iff`. What is rounded to a number lies in its interval, from which the shortest
decimals are taken: `RoundsTo.holds`.
-/

set_option autoImplicit false

namespace MetricQuery

namespace Double

open RoundingInterval

/-- The finite number `x` is what the nonnegative value `v` is rounded to, its sign aside. -/
structure NearestEven (v : ℚ) (x : Double) : Prop where
  finite : x.isFinite = true
  range : v < (2 ^ 53 - 1 / 2) * 2 ^ (971 : Int)
  nearest : ∀ y : Double, y.isFinite = true → |v - x.value| ≤ |v - y.value|
  even : ∀ y : Double, y.isFinite = true → y.value ≠ x.value → |v - x.value| = |v - y.value| → x.significand % 2 = 0

/-! ## The order of numbers -/

section Order

variable {x y : Double}

/-- Values grow with the magnitudes. -/
theorem value_lt_value (h : x.magnitude < y.magnitude) : x.value < y.value := by
  have hx := x.magnitude_eq
  have hy := y.magnitude_eq
  have hxlt := x.significand_lt
  have hylt := y.significand_lt
  have hxge := x.exponent_ge
  have hyge := y.exponent_ge
  have hxbit := x.hiddenBit_le_significand
  unfold hiddenBit at hx hy hxbit
  rcases lt_trichotomy x.exponent y.exponent with hlt | heq | hgt
  · calc x.value < 2 ^ (x.exponent + 53) := x.onGrid_value.below
      _ ≤ 2 ^ (y.exponent + 52) := zpow_le_zpow_right₀ (by norm_num) (by omega)
      _ ≤ y.value := y.onGrid_value.above.resolve_left (by omega)
  · have hsig : x.significand < y.significand := by
      rw [heq] at hx
      omega
    unfold value
    rw [heq]
    have hcast : (x.significand : ℚ) < y.significand := by exact_mod_cast hsig
    exact mul_lt_mul_of_pos_right hcast (by positivity)
  · have := hxbit (by omega)
    omega

/-- The last bit of the significand is the last of all bits. -/
theorem significand_mod_two (x : Double) : x.significand % 2 = x.magnitude % 2 := by
  have h := x.magnitude_eq
  unfold hiddenBit at h
  omega

end Order

/-- A value has at most one nearest number, up to the sign: of two that are equally near one stands between, or one of
the significands is odd. -/
theorem NearestEven.magnitude_unique {v : ℚ} {x y : Double} (hx : NearestEven v x) (hy : NearestEven v y) :
    x.magnitude = y.magnitude := by
  by_contra hne
  wlog hlt : x.magnitude < y.magnitude generalizing x y
  · exact this hy hx (Ne.symm hne) (by omega)
  have hvalue := value_lt_value hlt
  have htie : |v - x.value| = |v - y.value| := le_antisymm (hx.nearest y hy.finite) (hy.nearest x hx.finite)
  have hxeven := hx.even y hy.finite hvalue.ne' htie
  have hyeven := hy.even x hx.finite hvalue.ne htie.symm
  rw [significand_mod_two] at hxeven hyeven
  have hfinite : y.magnitude < infiniteMagnitude := of_decide_eq_true hy.finite
  have hmag : (ofMagnitude false (x.magnitude + 1)).magnitude = x.magnitude + 1 :=
    magnitude_ofMagnitude _ _ (by have := y.magnitude_lt; omega)
  -- Both magnitudes are even, so the next one lies strictly between them.
  have hleft : x.value < (ofMagnitude false (x.magnitude + 1)).value := value_lt_value (by omega)
  have hright : (ofMagnitude false (x.magnitude + 1)).value < y.value := value_lt_value (by omega)
  have hnear := hx.nearest (ofMagnitude false (x.magnitude + 1)) (decide_eq_true (by omega))
  generalize (ofMagnitude false (x.magnitude + 1)).value = z at hleft hright hnear
  have hmiddle : v - x.value = y.value - v := by
    rcases abs_eq_abs.mp htie with heq | heq
    · linarith
    · linarith
  have hcloser : |v - z| < v - x.value := abs_lt.mpr ⟨by linarith, by linarith⟩
  exact absurd (hnear.trans_lt hcloser) (not_lt.mpr (le_abs_self _))

/-! ## Rounding on a grid -/

/-- No whole number is nearer than a nearest one, and only an even one lets another be as near. -/
theorem abs_sub_le_of_isNearest {t : ℚ} {n : Nat} (h : IsNearest t n) (k : Nat) :
    |t - n| ≤ |t - k| ∧ (k ≠ n → |t - n| = |t - k| → n % 2 = 0) := by
  rcases eq_or_ne k n with rfl | hne
  · exact ⟨le_refl _, fun hk => absurd rfl hk⟩
  have hhalf : |t - n| ≤ 1 / 2 := abs_le.mpr ⟨by linarith [h.low], by linarith [h.high]⟩
  -- Two different whole numbers are a step apart.
  have hstep : (1 : ℚ) ≤ |t - n| + |t - k| := by
    calc (1 : ℚ) ≤ |(k : ℚ) - n| := by exact_mod_cast Int.one_le_abs (show (k : Int) - n ≠ 0 by omega)
      _ = |(t - n) - (t - k)| := by rw [sub_sub_sub_cancel_left]
      _ ≤ |t - n| + |t - k| := abs_sub _ _
  refine ⟨by linarith, fun _ htie => ?_⟩
  by_contra hodd
  obtain ⟨hlow, hhigh⟩ := h.odd (by omega)
  have hinside : |t - n| < 1 / 2 := abs_lt.mpr ⟨by linarith, by linarith⟩
  linarith

section Grid

variable {e : Int} {v : ℚ} {n : Nat}

/-- A number is a point of a grid, or lies below the leading one of that grid. -/
theorem value_cases (y : Double) (e : Int) :
    (∃ k : Nat, y.value = k * 2 ^ e) ∨ -1074 < e ∧ y.value < 2 ^ (e + 52) := by
  rcases le_or_gt e y.exponent with hle | hlt
  · obtain ⟨j, hj⟩ := Int.eq_ofNat_of_zero_le (show 0 ≤ y.exponent - e by omega)
    refine .inl ⟨y.significand * 2 ^ j, ?_⟩
    rw [value, show y.exponent = e + (j : Int) by omega, two_zpow_add]
    push_cast
    ring
  · have hge := y.exponent_ge
    refine .inr ⟨by omega, y.onGrid_value.below.trans_le ?_⟩
    exact zpow_le_zpow_right₀ (by norm_num) (by omega)

/-- No number is nearer to a value than the point that it is rounded to. -/
theorem OnGrid.abs_sub_le (h : OnGrid e v) (hnear : IsNearest (v * 2 ^ (-e)) n) (y : Double) :
    |v - n * 2 ^ e| ≤ |v - y.value| ∧ (y.value ≠ n * 2 ^ e → |v - n * 2 ^ e| = |v - y.value| → n % 2 = 0) := by
  have hpow : (0 : ℚ) < 2 ^ e := by positivity
  have hscale (k : Nat) : |v - k * 2 ^ e| = |v * 2 ^ (-e) - k| * 2 ^ e := by
    rw [← abs_of_pos hpow, ← abs_mul, sub_mul, abs_of_pos hpow, mul_zpow_cancel]
  rcases value_cases y e with ⟨k, hk⟩ | ⟨hexp, hbelow⟩
  · obtain ⟨hle, htie⟩ := abs_sub_le_of_isNearest hnear k
    rw [hk, hscale, hscale]
    refine ⟨mul_le_mul_of_nonneg_right hle hpow.le, fun hne heq => htie ?_ ?_⟩
    · rintro rfl
      exact hne rfl
    · exact mul_right_cancel₀ hpow.ne' heq
  · -- The leading one of the grid is a point between the number and the value.
    have habove : 2 ^ (e + 52) ≤ v := h.above.resolve_left (by omega)
    have hlead : ((2 ^ 52 : Nat) : ℚ) * 2 ^ e = 2 ^ (e + 52) := by
      have hadd := two_zpow_add e 52
      push_cast at hadd ⊢
      exact hadd.symm
    have hlt : |v - n * 2 ^ e| < |v - y.value| := by
      calc |v - n * 2 ^ e| = |v * 2 ^ (-e) - n| * 2 ^ e := hscale n
        _ ≤ |v * 2 ^ (-e) - (2 ^ 52 : Nat)| * 2 ^ e :=
          mul_le_mul_of_nonneg_right (abs_sub_le_of_isNearest hnear _).1 hpow.le
        _ = |v - 2 ^ (e + 52)| := by rw [← hscale, hlead]
        _ = v - 2 ^ (e + 52) := abs_of_nonneg (by linarith)
        _ < v - y.value := by linarith
        _ ≤ |v - y.value| := le_abs_self _
    exact ⟨hlt.le, fun _ heq => absurd heq hlt.ne⟩

end Grid

/-! ## The rule and the grid agree -/

section Rule

variable {v : ℚ} {m : Nat} {x : Double}

/-- The largest number is the last point of its grid, and rounding reaches the next one at half a step. -/
theorem RoundsTo.lt_infiniteMagnitude_iff (h : RoundsTo v m) :
    m < infiniteMagnitude ↔ v < (2 ^ 53 - 1 / 2) * 2 ^ (971 : Int) := by
  obtain ⟨e, n, hgrid, hnear, hm⟩ := h
  obtain ⟨hn, hlead⟩ := hgrid.point_bounds hnear
  have hlowest := hgrid.lowest
  unfold infiniteMagnitude
  unfold hiddenBit at hm ⊢
  rcases lt_trichotomy e 971 with hlt | rfl | hgt
  · -- Coarser grids come later, so everything is in range.
    refine iff_of_true (by omega) (hgrid.below.trans ?_)
    calc (2 : ℚ) ^ (e + 53) ≤ 2 ^ (1023 : Int) := zpow_le_zpow_right₀ (by norm_num) (by omega)
      _ = 2 ^ 52 * 2 ^ (971 : Int) := by
        rw [show (1023 : Int) = 971 + (52 : Nat) by norm_num, two_zpow_add]
      _ < (2 ^ 53 - 1 / 2) * 2 ^ (971 : Int) := mul_lt_mul_of_pos_right (by norm_num) (by positivity)
  · have hpow : (0 : ℚ) < 2 ^ (971 : Int) := by positivity
    rw [← mul_zpow_cancel v 971, mul_lt_mul_iff_left₀ hpow]
    have hpoint : m < 2047 * 0x10000000000000 ↔ n < 2 ^ 53 := by omega
    rw [hpoint]
    constructor
    · intro hless
      rcases (show n + 1 < 2 ^ 53 ∨ n = 2 ^ 53 - 1 by omega) with hsmall | rfl
      · have hcast : (n : ℚ) + 1 < 2 ^ 53 := by exact_mod_cast hsmall
        linarith [hnear.high]
      · have hhigh := (hnear.odd (by norm_num)).2
        norm_num at hhigh ⊢
        exact hhigh
    · intro hless
      have hcast : (n : ℚ) < ((2 ^ 53 : Nat) : ℚ) := by
        push_cast
        linarith [hnear.low]
      exact_mod_cast hcast
  · refine iff_of_false (by omega) (not_lt.mpr ?_)
    have habove := hgrid.above.resolve_left (by omega)
    calc (2 ^ 53 - 1 / 2) * (2 : ℚ) ^ (971 : Int) ≤ 2 ^ 53 * 2 ^ (971 : Int) :=
          mul_le_mul_of_nonneg_right (by norm_num) (by positivity)
      _ = 2 ^ (1024 : Int) := by
        rw [show (1024 : Int) = 971 + (53 : Nat) by norm_num, two_zpow_add]
      _ ≤ 2 ^ (e + 52) := zpow_le_zpow_right₀ (by norm_num) (by omega)
      _ ≤ v := habove

/-- A value is nearest to the finite double that it is rounded to. -/
theorem RoundsTo.nearestEven (h : RoundsTo v x.magnitude) (hfinite : x.isFinite = true) : NearestEven v x := by
  have hrange := h.lt_infiniteMagnitude_iff.mp (of_decide_eq_true hfinite)
  obtain ⟨e, n, hgrid, hnear, hm⟩ := h
  obtain ⟨hn, hlead⟩ := hgrid.point_bounds hnear
  have hvalue := value_eq_of_magnitude hgrid.lowest hn hlead hm
  have hparity : n % 2 = x.significand % 2 := by
    rw [significand_mod_two]
    unfold hiddenBit at hm
    omega
  refine ⟨hfinite, hrange, fun y _ => ?_, fun y _ hne htie => ?_⟩
  · rw [hvalue]
    exact (hgrid.abs_sub_le hnear y).1
  · rw [hvalue] at hne htie
    rw [← hparity]
    exact (hgrid.abs_sub_le hnear y).2 hne htie

/-- What is nearer to zero than to the smallest number is rounded to zero. -/
theorem roundsTo_zero (hv : 0 ≤ v) (h : v < 2 ^ (-1075 : Int)) : RoundsTo v 0 := by
  have hhalf : v * 2 ^ (1074 : Int) < 1 / 2 := by
    calc v * 2 ^ (1074 : Int) < 2 ^ (-1075 : Int) * 2 ^ (1074 : Int) := mul_lt_mul_of_pos_right h (by positivity)
      _ = 1 / 2 := by
        rw [← zpow_add₀ two_ne_zero]
        norm_num
  have hnonneg : 0 ≤ v * 2 ^ (1074 : Int) := mul_nonneg hv (by positivity)
  refine ⟨-1074, 0, ⟨le_refl _, h.trans_le ?_, .inl rfl⟩, ?_, rfl⟩
  · exact zpow_le_zpow_right₀ (by norm_num) (by norm_num)
  · rw [neg_neg]
    generalize v * 2 ^ (1074 : Int) = t at hhalf hnonneg
    exact ⟨by linarith, by linarith, nofun⟩

/-- Every value is rounded somewhere. -/
theorem exists_roundsTo_of_nonneg (hv : 0 ≤ v) : ∃ m, RoundsTo v m := by
  rcases hv.eq_or_lt with rfl | hpos
  · exact ⟨0, roundsTo_zero (le_refl _) (by positivity)⟩
  · have hnum : 0 < v.num.toNat := by
      have hsign := Rat.num_pos.mpr hpos
      omega
    obtain ⟨m, hm, -⟩ := exists_roundsTo false hnum v.den_pos
    have hcast : ((v.num.toNat : Nat) : ℚ) = v.num := by exact_mod_cast Int.toNat_of_nonneg (by omega)
    rw [hcast, Rat.num_div_den] at hm
    exact ⟨m, hm⟩

/-- A value is nearest to a finite double exactly when it is rounded to it. -/
theorem nearestEven_iff (hv : 0 ≤ v) (hfinite : x.isFinite = true) : NearestEven v x ↔ RoundsTo v x.magnitude := by
  refine ⟨fun h => ?_, fun h => h.nearestEven hfinite⟩
  obtain ⟨m, hm⟩ := exists_roundsTo_of_nonneg hv
  have hlt : m < infiniteMagnitude := hm.lt_infiniteMagnitude_iff.mpr h.range
  have hmag : (ofMagnitude false m).magnitude = m := magnitude_ofMagnitude _ _ (hlt.trans (by decide))
  have hrule : NearestEven v (ofMagnitude false m) := by
    apply RoundsTo.nearestEven
    · rwa [hmag]
    · rw [isFinite, hmag]
      exact decide_eq_true hlt
  rwa [h.magnitude_unique hrule, hmag]

/-- A value between the borders is in the interval, and on them if the significand is even. -/
theorem holds_of_le (hlow : (of x).lowValue ≤ v) (hhigh : v ≤ (of x).highValue)
    (hodd : x.significand % 2 = 1 → (of x).lowValue < v ∧ v < (of x).highValue) : (of x).Holds v := by
  unfold Holds
  rw [of_closed]
  split
  · exact ⟨hlow, hhigh⟩
  · rename_i hopen
    exact hodd (by simpa using hopen)

/-- What is rounded to a number lies in its interval. -/
theorem RoundsTo.holds (h : RoundsTo v x.magnitude) (hpos : 0 < x.magnitude) : (of x).Holds v := by
  obtain ⟨e, n, hgrid, hnear, hm⟩ := h
  obtain ⟨hn, hlead⟩ := hgrid.point_bounds hnear
  have hlowest := hgrid.lowest
  have hpow : (0 : ℚ) < 2 ^ e := by positivity
  have hlow : (n - 1 / 2) * 2 ^ e ≤ v := by
    rw [← mul_zpow_cancel v e]
    exact mul_le_mul_of_nonneg_right hnear.low hpow.le
  have hhigh : v ≤ (n + 1 / 2) * 2 ^ e := by
    rw [← mul_zpow_cancel v e]
    exact mul_le_mul_of_nonneg_right hnear.high hpow.le
  rcases parts_of_magnitude hlowest hn hlead hm with ⟨hexp, hsig⟩ | ⟨hexp, hsig, rfl⟩
  · have hdense := of_lowValue x hpos
    rw [hexp, hsig] at hdense
    apply holds_of_le
    · rw [hdense]
      split_ifs with hfirst
      · -- A value on this grid is not below the leading one, let alone on the denser grid before.
        have habove : 2 ^ (e + 52) ≤ v := hgrid.above.resolve_left (by omega)
        rw [hfirst.1, cast_hiddenBit]
        calc (2 ^ 52 - 1 / 4) * (2 : ℚ) ^ e ≤ 2 ^ 52 * 2 ^ e := mul_le_mul_of_nonneg_right (by norm_num) hpow.le
          _ = 2 ^ (e + 52) := (two_zpow_add e 52).symm
          _ ≤ v := habove
      · exact hlow
    · rw [of_highValue, hexp, hsig]
      exact hhigh
    · intro hodd
      rw [hsig] at hodd
      have hlater : ¬ (n = hiddenBit ∧ -1074 < e) := by
        rintro ⟨rfl, -⟩
        cases hodd
      obtain ⟨hl, hh⟩ := hnear.odd hodd
      rw [hdense, if_neg hlater, of_highValue, hexp, hsig, ← mul_zpow_cancel v e]
      exact ⟨mul_lt_mul_of_pos_right hl hpow, mul_lt_mul_of_pos_right hh hpow⟩
  · -- A carry: the number is the first of the next binade.
    have hfirst : x.significand = hiddenBit ∧ -1074 < x.exponent := ⟨hsig, by omega⟩
    have hstep : (2 : ℚ) ^ (e + 1) = 2 * 2 ^ e := by
      rw [zpow_add₀ two_ne_zero, zpow_one, mul_comm]
    apply holds_of_le
    · rw [of_lowValue x hpos, if_pos hfirst, hexp, hsig, hstep]
      push_cast at hlow ⊢
      linarith
    · have hbelow := hgrid.below
      rw [show e + 53 = e + 1 + ((52 : Nat) : Int) by push_cast; ring, two_zpow_add] at hbelow
      rw [of_highValue, hexp, hsig]
      refine hbelow.le.trans (mul_le_mul_of_nonneg_right ?_ (by positivity))
      norm_num
    · rw [hsig]
      nofun

end Rule

end Double

open Double

/-! ## Reading decimals -/

/-- The value of a decimal is not negative. -/
theorem Decimal.value_nonneg (d : Decimal) : 0 ≤ d.value :=
  mul_nonneg (Nat.cast_nonneg _) (by positivity)

/-- Reading rounds the value, also where it takes a shortcut. -/
theorem Decimal.exists_roundsTo_toDouble (d : Decimal) (negative : Bool) :
    ∃ m, RoundsTo d.value m ∧ d.toDouble negative = ofMagnitude negative (min m infiniteMagnitude) := by
  unfold toDouble
  split_ifs with hzero hlarge hsmall hsign
  · refine ⟨0, roundsTo_zero d.value_nonneg ?_, rfl⟩
    rw [value, hzero, Nat.cast_zero, zero_mul]
    positivity
  · obtain ⟨m, hm⟩ := exists_roundsTo_of_nonneg d.value_nonneg
    have hout : infiniteMagnitude ≤ m := by
      by_contra hlt
      have hrange := hm.lt_infiniteMagnitude_iff.mp (not_le.mp hlt)
      have hvalue : (10 : ℚ) ^ (309 : Int) ≤ d.value :=
        (zpow_le_zpow_right₀ (by norm_num) (by omega)).trans (ten_zpow_le_value hzero)
      have hlargest : (2 ^ 53 - 1 / 2) * (2 : ℚ) ^ (971 : Int) ≤ 2 ^ 53 * 2 ^ (971 : Int) :=
        mul_le_mul_of_nonneg_right (by norm_num) (by positivity)
      exact absurd (hlargest.trans_lt largest_lt_ten_zpow) (not_lt.mpr (hvalue.trans hrange.le))
    exact ⟨m, hm, by rw [min_eq_right hout, infinity]⟩
  · refine ⟨0, roundsTo_zero d.value_nonneg ?_, rfl⟩
    calc d.value ≤ 10 ^ (d.leading + 1) := d.value_le_ten_zpow
      _ ≤ 10 ^ (-324 : Int) := zpow_le_zpow_right₀ (by norm_num) (by omega)
      _ < 1 / 2 * 2 ^ (-1074 : Int) := ten_zpow_lt_smallest
      _ = 2 ^ (-1075 : Int) := by
        rw [show (-1074 : Int) = -1075 + (1 : Nat) by norm_num, two_zpow_add]
        ring
  · have hnum : 0 < d.digits * tenPow d.exponent.toNat := Nat.mul_pos (Nat.pos_of_ne_zero hzero) (tenPow_pos _)
    obtain ⟨m, hm, heq⟩ := exists_roundsTo negative hnum Nat.one_pos
    refine ⟨m, ?_, heq⟩
    rw [value, ten_zpow_eq_cast hsign]
    rwa [Nat.cast_one, div_one, Nat.cast_mul] at hm
  · obtain ⟨m, hm, heq⟩ := exists_roundsTo negative (Nat.pos_of_ne_zero hzero) (tenPow_pos (-d.exponent).toNat)
    refine ⟨m, ?_, heq⟩
    rwa [value, ten_zpow_eq_inv hsign, ← div_eq_mul_inv]

/-- A decimal is read as a finite number if and only if it has its sign and the number is the nearest to its value. -/
theorem Decimal.toDouble_eq_iff (d : Decimal) (negative : Bool) {x : Double} (hfinite : x.isFinite = true) :
    d.toDouble negative = x ↔ x.isNegative = negative ∧ NearestEven d.value x := by
  obtain ⟨m, hm, heq⟩ := d.exists_roundsTo_toDouble negative
  have hlt : x.magnitude < infiniteMagnitude := of_decide_eq_true hfinite
  have hmag : (ofMagnitude negative (min m infiniteMagnitude)).magnitude = min m infiniteMagnitude :=
    magnitude_ofMagnitude _ _ ((min_le_right _ _).trans_lt (by decide))
  rw [heq, nearestEven_iff d.value_nonneg hfinite]
  constructor
  · rintro rfl
    rw [isNegative_ofMagnitude, hmag]
    rw [hmag] at hlt
    have hmin : min m infiniteMagnitude = m := by omega
    rw [hmin]
    exact ⟨rfl, hm⟩
  · rintro ⟨rfl, hround⟩
    rw [hm.unique hround, min_eq_left hlt.le, ofMagnitude_isNegative_magnitude]

end MetricQuery
