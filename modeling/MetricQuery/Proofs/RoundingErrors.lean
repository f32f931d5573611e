import MetricQuery.Proofs.ShortestDecimal

/-!
# Errors of rounded arithmetic

How far a result can be off when its operands were rounded before. Numbers are counted by their magnitudes, so that
neighbours differ by one. The `place` of a value extends this count to all positive values: the magnitude of
a number is the place of its value, and rounding a value is rounding its place to a whole number.

Over each grid the place is a line, and the lines get flatter from grid to grid. So the place lies below every
one of them, `OnGrid.place_le`, and a value that is off by a factor `r` is off by at most `(r - 1) * 2 ^ 53`
places, `OnGrid.place_le_add`. Factors multiply along a computation: `Within`.
-/

set_option autoImplicit false

namespace MetricQuery

/-! ## Factors -/

/-- Two values differ by the factor `r` at most. -/
structure Within (r a b : ℚ) : Prop where
  left : a ≤ r * b
  right : b ≤ r * a

namespace Within

variable {r s a b c d : ℚ}

/-- Products of values within two bounds are within the product of the bounds. -/
theorem mul (h : Within r a b) (h' : Within s c d) (ha : 0 ≤ a) (hb : 0 ≤ b) (hc : 0 ≤ c) (hd : 0 ≤ d) :
    Within (r * s) (a * c) (b * d) := by
  constructor
  · calc a * c ≤ (r * b) * (s * d) := mul_le_mul h.left h'.left hc (ha.trans h.left)
      _ = r * s * (b * d) := by ring
  · calc b * d ≤ (r * a) * (s * c) := mul_le_mul h.right h'.right hd (hb.trans h.right)
      _ = r * s * (a * c) := by ring

/-- Inverses of values within a bound are within the same bound. -/
theorem inv (h : Within r a b) (ha : 0 < a) (hb : 0 < b) : Within r a⁻¹ b⁻¹ := by
  constructor
  · rw [inv_le_iff_one_le_mul₀ ha, mul_right_comm, ← div_eq_mul_inv, one_le_div hb]
    exact h.right
  · rw [inv_le_iff_one_le_mul₀ hb, mul_right_comm, ← div_eq_mul_inv, one_le_div ha]
    exact h.left

/-- Quotients of values within two bounds are within the product of the bounds. -/
theorem div (h : Within r a b) (h' : Within s c d) (ha : 0 ≤ a) (hb : 0 ≤ b) (hc : 0 < c) (hd : 0 < d) :
    Within (r * s) (a / c) (b / d) := by
  rw [div_eq_mul_inv, div_eq_mul_inv]
  exact h.mul (h'.inv hc hd) ha hb (inv_nonneg.mpr hc.le) (inv_nonneg.mpr hd.le)

/-- Bounds are multiplied from one value over a second to a third. -/
theorem trans (h : Within r a b) (h' : Within s b c) (hr : 0 ≤ r) (hs : 0 ≤ s) : Within (r * s) a c := by
  constructor
  · calc a ≤ r * b := h.left
      _ ≤ r * (s * c) := mul_le_mul_of_nonneg_left h'.left hr
      _ = r * s * c := by ring
  · calc c ≤ s * b := h'.right
      _ ≤ s * (r * a) := mul_le_mul_of_nonneg_left h.right hs
      _ = r * s * a := by ring

/-- A value within a bound of a positive one is positive. -/
theorem pos (h : Within r a b) (hr : 0 ≤ r) (ha : 0 < a) : 0 < b := by
  by_contra hb
  have hle := mul_nonpos_of_nonneg_of_nonpos hr (not_lt.mp hb)
  exact absurd (ha.trans_le h.left) (not_lt.mpr hle)

end Within

namespace Double

/-! ## Places -/

/-- The place of a value on the line of one grid. -/
def place (e : Int) (v : ℚ) : ℚ :=
  (e + 1074) * 2 ^ 52 + v * 2 ^ (-e)

/-- A step up the grid moves a value by how far it is from the hidden bit. -/
theorem place_succ (e : Int) (v : ℚ) : place (e + 1) v = place e v + (2 ^ 52 - v * 2 ^ (-(e + 1))) := by
  have hstep : (2 : ℚ) ^ (-e) = 2 * 2 ^ (-(e + 1)) := by
    rw [show -e = -(e + 1) + 1 by ring, zpow_add₀ two_ne_zero, zpow_one, mul_comm]
  unfold place
  rw [hstep]
  push_cast
  ring

section Places

variable {e e' : Int} {a b v r : ℚ}

/-- Units of the grid are counted and put together again. -/
theorem mul_zpow_cancel (v : ℚ) (e : Int) : v * 2 ^ (-e) * 2 ^ e = v := by
  rw [mul_assoc, ← zpow_add₀ two_ne_zero, neg_add_cancel, zpow_zero, mul_one]

/-- A value counts fewer than `2 ^ 53` steps of its grid. -/
theorem OnGrid.units_lt (h : OnGrid e v) : v * 2 ^ (-e) < 2 ^ 53 := by
  have hpow : (0 : ℚ) < 2 ^ e := by positivity
  have hbelow : v < 2 ^ 53 * 2 ^ e := h.below.trans_eq (two_zpow_add e 53)
  rwa [← mul_zpow_cancel v e, mul_lt_mul_iff_left₀ hpow] at hbelow

/-- A value from the hidden bit on has at least as many units. -/
theorem le_units (h : 2 ^ (e + 52) ≤ v) : 2 ^ 52 ≤ v * 2 ^ (-e) := by
  have hpow : (0 : ℚ) < 2 ^ e := by positivity
  have habove : 2 ^ 52 * 2 ^ e ≤ v := (two_zpow_add e 52).symm.trans_le h
  rwa [← mul_zpow_cancel v e, mul_le_mul_iff_left₀ hpow] at habove

/-- The line of the own grid is the lowest. -/
theorem OnGrid.place_le (h : OnGrid e v) (he' : -1074 ≤ e') : place e v ≤ place e' v := by
  rcases le_total e e' with hup | hdown
  · -- Coarser grids: each step of the exponent adds more than the slope loses.
    clear he'
    induction e', hup using Int.leInduction with
    | base => exact le_refl _
    | succ n hn ih =>
      have hslope : v * 2 ^ (-(n + 1)) ≤ 2 ^ 52 := by
        calc v * 2 ^ (-(n + 1)) ≤ 2 ^ (n + 53) * 2 ^ (-(n + 1)) := by
              apply mul_le_mul_of_nonneg_right _ (by positivity)
              exact h.below.le.trans (zpow_le_zpow_right₀ (by norm_num) (by omega))
          _ = 2 ^ 52 := by
            rw [← zpow_add₀ two_ne_zero, show n + 53 + -(n + 1) = ((52 : Nat) : Int) by push_cast; ring, zpow_natCast]
      rw [place_succ]
      linarith
  · rcases h.above with hlowest | habove
    · obtain rfl : e = e' := by omega
      exact le_refl _
    -- Finer grids: each step back takes less than the slope gains.
    clear he'
    induction e', hdown using Int.leInductionDown with
    | base => exact le_refl _
    | pred n hn ih =>
      have hslope : 2 ^ 52 ≤ v * 2 ^ (-n) := by
        calc (2 : ℚ) ^ 52 = 2 ^ (n + 52) * 2 ^ (-n) := by
              rw [← zpow_add₀ two_ne_zero, show n + 52 + -n = ((52 : Nat) : Int) by push_cast; ring, zpow_natCast]
          _ ≤ v * 2 ^ (-n) := by
            apply mul_le_mul_of_nonneg_right _ (by positivity)
            exact (zpow_le_zpow_right₀ (by norm_num) (by omega)).trans habove
      have hstep := place_succ (n - 1) v
      rw [show n - 1 + 1 = n by ring] at hstep
      linarith

/-- A factor moves the place by a bounded number of neighbours. -/
theorem OnGrid.place_le_add (ha : OnGrid e a) (hb : OnGrid e' b) (hr : 1 ≤ r) (h : b ≤ r * a) :
    place e' b ≤ place e a + (r - 1) * 2 ^ 53 := by
  have hunits := ha.units_lt.le
  calc place e' b ≤ place e b := hb.place_le ha.lowest
    _ = place e a + (b - a) * 2 ^ (-e) := by unfold place; ring
    _ ≤ place e a + ((r - 1) * a) * 2 ^ (-e) := by gcongr; linarith
    _ = place e a + (r - 1) * (a * 2 ^ (-e)) := by ring
    _ ≤ place e a + (r - 1) * 2 ^ 53 := by gcongr

end Places

/-! ## Rounding -/

/-- The point that a value is rounded to has a leading one, and at most a carry. -/
theorem OnGrid.point_bounds {e : Int} {v : ℚ} {n : Nat} (h : OnGrid e v) (hnear : IsNearest (v * 2 ^ (-e)) n) :
    n ≤ 2 ^ 53 ∧ (e = -1074 ∨ 2 ^ 52 ≤ n) := by
  have hlow := hnear.low
  have hhigh := hnear.high
  constructor
  · have hlt : (n : ℚ) < ((2 ^ 53 + 1 : Nat) : ℚ) := by
      have hunits := h.units_lt
      push_cast
      linarith
    exact Nat.lt_succ_iff.mp (by exact_mod_cast hlt)
  · refine h.above.imp_right fun habove => ?_
    have hlt : ((2 ^ 52 : Nat) : ℚ) < ((n + 1 : Nat) : ℚ) := by
      have hunits := le_units habove
      push_cast
      linarith
    exact Nat.lt_succ_iff.mp (by exact_mod_cast hlt)

/-- `m` is the magnitude that a value is rounded to, if there were no largest number. -/
def RoundsTo (v : ℚ) (m : Nat) : Prop :=
  ∃ (e : Int) (n : Nat), OnGrid e v ∧ IsNearest (v * 2 ^ (-e)) n ∧ (m : Int) = (e + 1074) * hiddenBit + n

/-- A quotient is rounded to its place on the grid, or to infinity beyond the last. -/
theorem exists_roundsTo (negative : Bool) {num den : Nat} (hnum : 0 < num) (hden : 0 < den) :
    ∃ m, RoundsTo ((num : ℚ) / den) m ∧
      ofRatio negative num den = ofMagnitude negative (min m infiniteMagnitude) := by
  have hgrid := onGrid_gridExponent hnum hden
  have hlowest := hgrid.lowest
  obtain ⟨hb, hshift⟩ := shiftRatio_spec num hden (-gridExponent num den)
  have hnear := isNearest_roundDiv (shiftRatio num den (-gridExponent num den)).1 hb
  rw [hshift] at hnear
  refine ⟨(gridExponent num den + 1074).toNat * hiddenBit + roundDiv (shiftRatio num den (-gridExponent num den)).1
    (shiftRatio num den (-gridExponent num den)).2, ⟨gridExponent num den, _, hgrid, hnear, ?_⟩, ?_⟩
  · push_cast
    rw [Int.toNat_of_nonneg (by omega)]
  · unfold ofRatio
    rw [if_neg hnum.ne']

namespace RoundsTo

variable {a b r v : ℚ} {m n : Nat}

/-- The magnitude is next to the place of the value. -/
theorem place (h : RoundsTo v m) :
    ∃ e, OnGrid e v ∧ Double.place e v - 1 / 2 ≤ m ∧ (m : ℚ) ≤ Double.place e v + 1 / 2 := by
  obtain ⟨e, n, hgrid, hnear, hm⟩ := h
  have hcast : (m : ℚ) = (e + 1074) * 2 ^ 52 + n := by
    have hcast : ((m : Int) : ℚ) = (((e + 1074) * hiddenBit + n : Int) : ℚ) := by rw [hm]
    unfold hiddenBit at hcast
    push_cast at hcast
    rw [hcast]
    norm_num
  refine ⟨e, hgrid, ?_, ?_⟩
  · unfold Double.place
    linarith [hnear.high]
  · unfold Double.place
    linarith [hnear.low]

/-- Values that differ by a factor are rounded to magnitudes that differ by little. -/
theorem le_add (ha : RoundsTo a m) (hb : RoundsTo b n) (hr : 1 ≤ r) (h : b ≤ r * a) :
    (n : ℚ) ≤ m + (1 + (r - 1) * 2 ^ 53) := by
  obtain ⟨e, hgrid, hlow, -⟩ := ha.place
  obtain ⟨e', hgrid', -, hhigh⟩ := hb.place
  have hplace := hgrid.place_le_add hgrid' hr h
  linarith

/-- What does not come near the largest number is finite. -/
theorem lt_infiniteMagnitude (h : RoundsTo v m) (hv : v ≤ 2 ^ (1023 : Int)) : m < infiniteMagnitude := by
  obtain ⟨e, hgrid, -, hhigh⟩ := h.place
  have hplace : Double.place e v ≤ 2046 * 2 ^ 52 := by
    calc Double.place e v ≤ Double.place 971 v := hgrid.place_le (by norm_num)
      _ = 2045 * 2 ^ 52 + v * 2 ^ (-971 : Int) := by unfold Double.place; norm_num
      _ ≤ 2045 * 2 ^ 52 + 2 ^ (1023 : Int) * 2 ^ (-971 : Int) := by gcongr
      _ = 2046 * 2 ^ 52 := by
        rw [← zpow_add₀ two_ne_zero]
        norm_num
  have hcast : (m : ℚ) < (infiniteMagnitude : Nat) := by
    unfold infiniteMagnitude hiddenBit
    push_cast
    linarith
  exact_mod_cast hcast

end RoundsTo

/-! ## Values of numbers -/

/-- The absolute value of a finite number. -/
def value (x : Double) : ℚ :=
  x.significand * 2 ^ x.exponent

/-- The two parts of a double as a quotient have its value. -/
theorem ratio_spec (x : Double) : 0 < x.ratio.2 ∧ (x.ratio.1 : ℚ) / x.ratio.2 = x.value := by
  obtain ⟨hpos, hvalue⟩ := shiftRatio_spec x.significand Nat.one_pos x.exponent
  rw [Nat.cast_one, div_one] at hvalue
  exact ⟨hpos, hvalue⟩

/-- A double that is not zero has a positive value. -/
theorem value_pos {x : Double} (h : 0 < x.magnitude) : 0 < x.value := by
  have hm : (0 : ℚ) < x.significand := by exact_mod_cast x.significand_pos h
  exact mul_pos hm (by positivity)

/-- A magnitude that is written as a grid and a point on it, with a carry or not. -/
theorem parts_of_magnitude {x : Double} {e : Int} {n : Nat} (he : -1074 ≤ e) (hn : n ≤ 2 ^ 53)
    (hlead : e = -1074 ∨ 2 ^ 52 ≤ n) (hmag : (x.magnitude : Int) = (e + 1074) * hiddenBit + n) :
    x.exponent = e ∧ x.significand = n ∨ x.exponent = e + 1 ∧ x.significand = 2 ^ 52 ∧ n = 2 ^ 53 := by
  have heq := x.magnitude_eq
  have hlt := x.significand_lt
  have hge := x.exponent_ge
  have hidden := x.hiddenBit_le_significand
  unfold hiddenBit at *
  by_cases hexp : -1074 < x.exponent
  · have hfirst := hidden hexp
    omega
  · omega

/-- A double has the value that its magnitude shows on the grid. -/
theorem value_eq_of_magnitude {x : Double} {e : Int} {n : Nat} (he : -1074 ≤ e) (hn : n ≤ 2 ^ 53)
    (hlead : e = -1074 ∨ 2 ^ 52 ≤ n) (hmag : (x.magnitude : Int) = (e + 1074) * hiddenBit + n) :
    x.value = n * 2 ^ e := by
  unfold value
  rcases parts_of_magnitude he hn hlead hmag with ⟨rfl, rfl⟩ | ⟨hexp, hsig, rfl⟩
  · rfl
  · rw [hexp, hsig, zpow_add₀ two_ne_zero]
    push_cast
    ring

namespace RoundsTo

variable {v : ℚ} {m : Nat} {x : Double}

/-- Rounding to a normal number is off by half a unit of its last place at most. -/
theorem within (h : RoundsTo v m) (hx : x.magnitude = m) (hv : 2 ^ (-1022 : Int) ≤ v) :
    Within (1 + 1 / 2 ^ 53) v x.value := by
  obtain ⟨e, n, hgrid, hnear, hm⟩ := h
  have hpow : (0 : ℚ) < 2 ^ e := by positivity
  have hunits := mul_zpow_cancel v e
  have hn' := (hgrid.point_bounds hnear).1
  have hlead : 2 ^ 52 ≤ v * 2 ^ (-e) := by
    apply le_units
    rcases hgrid.above with rfl | habove
    · exact hv
    · exact habove
  generalize v * 2 ^ (-e) = t at hnear hunits hlead
  have hlow := hnear.low
  have hhigh := hnear.high
  have hn : 2 ^ 52 ≤ n := by
    have hcast : ((2 ^ 52 : Nat) : ℚ) < ((n + 1 : Nat) : ℚ) := by
      push_cast
      linarith
    exact Nat.lt_succ_iff.mp (by exact_mod_cast hcast)
  have hnQ : (2 : ℚ) ^ 52 ≤ n := by exact_mod_cast hn
  rw [value_eq_of_magnitude hgrid.lowest hn' (.inr hn) (hx ▸ hm), ← hunits]
  constructor
  · rw [← mul_assoc]
    apply mul_le_mul_of_nonneg_right _ hpow.le
    linarith
  · rw [← mul_assoc]
    apply mul_le_mul_of_nonneg_right _ hpow.le
    linarith

/-- A whole number below `2 ^ 53` is a number itself. -/
theorem value_eq_cast {k : Nat} (h : RoundsTo k m) (hx : x.magnitude = m) (hk : k < 2 ^ 53) : x.value = k := by
  obtain ⟨e, n, hgrid, hnear, hm⟩ := h
  have he : e ≤ 0 := by
    rcases hgrid.above with rfl | habove
    · norm_num
    · have hlt : (2 : ℚ) ^ (e + 52) < 2 ^ (53 : Int) := habove.trans_lt (by exact_mod_cast hk)
      have := lt_of_two_zpow_lt hlt
      omega
  obtain ⟨j, hj⟩ := Int.eq_ofNat_of_zero_le (show 0 ≤ -e by omega)
  have hunits : (k : ℚ) * 2 ^ (-e) = ((k * 2 ^ j : Nat) : ℚ) := by
    rw [hj, zpow_natCast]
    push_cast
    ring
  -- On a grid that fine the number is one of the points.
  have hn : n = k * 2 ^ j := by
    apply hnear.unique
    rw [hunits]
    exact ⟨by linarith, by linarith, fun _ => ⟨by linarith, by linarith⟩⟩
  have hnQ : (n : ℚ) = k * 2 ^ (-e) := by rw [hn, hunits]
  obtain ⟨hn', hlead⟩ := hgrid.point_bounds hnear
  rw [value_eq_of_magnitude hgrid.lowest hn' hlead (hx ▸ hm), hnQ, mul_zpow_cancel]

end RoundsTo

/-! ## Operations -/

section Operations

variable {x y : Double}

/-- The product of two doubles is the rounded product of their values. -/
theorem exists_roundsTo_mul (hx : 0 < x.value) (hy : 0 < y.value) :
    ∃ m, RoundsTo (x.value * y.value) m ∧
      x.mul y = ofMagnitude (x.isNegative != y.isNegative) (min m infiniteMagnitude) := by
  obtain ⟨hxpos, hxvalue⟩ := x.ratio_spec
  obtain ⟨hypos, hyvalue⟩ := y.ratio_spec
  rw [← hxvalue] at hx ⊢
  rw [← hyvalue] at hy ⊢
  have hnum : 0 < x.ratio.1 * y.ratio.1 := by
    apply Nat.mul_pos
    · exact Nat.pos_of_ne_zero fun h => by simp [h] at hx
    · exact Nat.pos_of_ne_zero fun h => by simp [h] at hy
  obtain ⟨m, hm, heq⟩ := exists_roundsTo (x.isNegative != y.isNegative) hnum (Nat.mul_pos hxpos hypos)
  rw [Nat.cast_mul, Nat.cast_mul, mul_div_mul_comm] at hm
  exact ⟨m, hm, heq⟩

/-- The quotient of two doubles is the rounded quotient of their values. -/
theorem exists_roundsTo_div (hx : 0 < x.value) (hy : 0 < y.value) :
    ∃ m, RoundsTo (x.value / y.value) m ∧
      x.div y = ofMagnitude (x.isNegative != y.isNegative) (min m infiniteMagnitude) := by
  obtain ⟨hxpos, hxvalue⟩ := x.ratio_spec
  obtain ⟨hypos, hyvalue⟩ := y.ratio_spec
  rw [← hxvalue] at hx ⊢
  rw [← hyvalue] at hy ⊢
  have hx' : 0 < x.ratio.1 := Nat.pos_of_ne_zero fun h => by simp [h] at hx
  have hy' : 0 < y.ratio.1 := Nat.pos_of_ne_zero fun h => by simp [h] at hy
  obtain ⟨m, hm, heq⟩ := exists_roundsTo (x.isNegative != y.isNegative) (Nat.mul_pos hx' hypos)
    (Nat.mul_pos hxpos hy')
  rw [Nat.cast_mul, Nat.cast_mul, ← div_div_div_eq] at hm
  exact ⟨m, hm, heq⟩

end Operations

/-- A finite magnitude is kept by the bound on magnitudes. -/
theorem ofMagnitude_min {m : Nat} (negative : Bool) (h : m < infiniteMagnitude) :
    ofMagnitude negative (min m infiniteMagnitude) = ofMagnitude negative m ∧
      (ofMagnitude negative m).magnitude = m := by
  rw [min_eq_left h.le]
  exact ⟨rfl, magnitude_ofMagnitude negative m (h.trans (by decide))⟩

/-! ## Powers of ten -/

/-- The rounded power of ten is off by the factor `1 + bound / 2 ^ 59` at most. -/
def powerWithin (bound n : Nat) : Bool :=
  let (a, b) := (powerOfTen n).ratio
  decide (tenPow n * b * 2 ^ 59 ≤ (2 ^ 59 + bound) * a ∧ a * 2 ^ 59 ≤ (2 ^ 59 + bound) * (tenPow n * b))

/-- A power of ten as a double is within its bound of the power. -/
theorem within_powerOfTen {bound n : Nat} (h : powerWithin bound n = true) :
    Within (1 + bound / 2 ^ 59) (10 ^ n) (powerOfTen n).value := by
  obtain ⟨hpos, hvalue⟩ := (powerOfTen n).ratio_spec
  have hposQ : (0 : ℚ) < (powerOfTen n).ratio.2 := by exact_mod_cast hpos
  obtain ⟨hlow, hhigh⟩ := of_decide_eq_true h
  have hlowQ : (10 : ℚ) ^ n * (powerOfTen n).ratio.2 * 2 ^ 59 ≤ (2 ^ 59 + bound) * (powerOfTen n).ratio.1 := by
    rw [← cast_tenPow]
    exact_mod_cast hlow
  have hhighQ : ((powerOfTen n).ratio.1 : ℚ) * 2 ^ 59 ≤ (2 ^ 59 + bound) * (10 ^ n * (powerOfTen n).ratio.2) := by
    rw [← cast_tenPow]
    exact_mod_cast hhigh
  rw [← hvalue]
  constructor
  · rw [← mul_div_assoc, le_div_iff₀ hposQ]
    linarith
  · rw [div_le_iff₀ hposQ]
    linarith

/-- No power of ten within the range of numbers is a worst case of rounding. -/
theorem powerWithin_of_le {n : Nat} (h : n ≤ 308) : powerWithin 59 n = true := by
  have hall : ∀ n < 309, powerWithin 59 n = true := by decide +kernel
  exact hall n (by omega)

/-- Small powers of ten are numbers themselves. -/
theorem powerWithin_zero_of_le {n : Nat} (h : n ≤ 22) : powerWithin 0 n = true := by
  have hall : ∀ n < 23, powerWithin 0 n = true := by decide +kernel
  exact hall n (by omega)

end Double

end MetricQuery
