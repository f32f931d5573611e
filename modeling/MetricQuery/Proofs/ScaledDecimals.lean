import MetricQuery.Json.Number
import MetricQuery.Proofs.RoundingErrors

/-!
# Scaled decimals

How far the JSON reader can be off. It converts the digits of a decimal to a number, and multiplies or divides by a
rounded power of ten, so it rounds three times where the nearest number needs one rounding. For a decimal of at most
seventeen digits in the interval of a number, the three errors add up to two neighbours, `near_scale`, or three when the
power of ten is beyond the range and is applied in two steps. Digits and powers that are numbers themselves have no
error.

Whatever the digits are that the reader collects, what it makes of them is finite: `isFinite_of_scale`.
-/

set_option autoImplicit false

namespace MetricQuery

namespace Double

/-- Magnitudes at most `k` neighbours apart. -/
def Near (k m n : Nat) : Prop :=
  m ≤ n + k ∧ n ≤ m + k

/-- A value is on the grid of one exponent. -/
theorem OnGrid.le {v : ℚ} {e e' : Int} (h : OnGrid e v) (h' : OnGrid e' v) : e ≤ e' := by
  rcases h.above with rfl | habove
  · exact h'.lowest
  · have hlt := lt_of_two_zpow_lt (habove.trans_lt h'.below)
    omega

/-- A value is rounded to one magnitude. -/
theorem RoundsTo.unique {v : ℚ} {m n : Nat} (h : RoundsTo v m) (h' : RoundsTo v n) : m = n := by
  obtain ⟨e, k, hgrid, hnear, hm⟩ := h
  obtain ⟨e', k', hgrid', hnear', hn⟩ := h'
  obtain rfl : e = e' := le_antisymm (hgrid.le hgrid') (hgrid'.le hgrid)
  rw [hnear.unique hnear'] at hm
  omega

/-- Values that differ by a factor are rounded to neighbours. -/
theorem RoundsTo.near {a b r : ℚ} {k m n : Nat} (ha : RoundsTo a m) (hb : RoundsTo b n) (h : Within r a b) (hr : 1 ≤ r)
    (hk : (r - 1) * 2 ^ 53 < k) : Near k m n := by
  have hleft := hb.le_add ha hr h.left
  have hright := ha.le_add hb hr h.right
  constructor
  · have hlt : (m : ℚ) < ((n + k + 1 : Nat) : ℚ) := by
      push_cast
      linarith
    exact Nat.lt_succ_iff.mp (by exact_mod_cast hlt)
  · have hlt : (n : ℚ) < ((m + k + 1 : Nat) : ℚ) := by
      push_cast
      linarith
    exact Nat.lt_succ_iff.mp (by exact_mod_cast hlt)

/-! ## The factors -/

/-- A rounded quotient has the sign that it is given. -/
theorem isNegative_ofRatio (negative : Bool) (num den : Nat) : (ofRatio negative num den).isNegative = negative := by
  unfold ofRatio
  split
  · exact isNegative_ofMagnitude negative 0
  · exact isNegative_ofMagnitude negative _

/-- No natural number becomes a negative double. -/
theorem isNegative_ofNat (n : Nat) : (ofNat n).isNegative = false :=
  isNegative_ofRatio false n 1

/-- A double without magnitude has no significand. -/
theorem significand_eq_zero {x : Double} (h : x.magnitude = 0) : x.significand = 0 := by
  have hge := x.exponent_ge
  have heq := x.magnitude_eq
  unfold hiddenBit at heq
  omega

/-- A double with a positive value is not zero. -/
theorem isZero_eq_false {x : Double} (h : 0 < x.value) : x.isZero = false := by
  refine decide_eq_false fun hzero => ?_
  unfold value at h
  rw [significand_eq_zero hzero] at h
  simp at h

section Factors

variable {s n : Nat}

/-- The digits as a number, off by one rounding. -/
theorem ofNat_spec (hs : 0 < s) (hs' : s < 10 ^ 17) :
    Within (1 + 1 / 2 ^ 53) s (ofNat s).value ∧ (s < 2 ^ 53 → (ofNat s).value = s) := by
  obtain ⟨m, hround, heq⟩ := exists_roundsTo false hs Nat.one_pos
  rw [Nat.cast_one, div_one] at hround
  have hsQ : (1 : ℚ) ≤ s := by exact_mod_cast hs
  have hsQ' : (s : ℚ) ≤ 10 ^ 17 := by exact_mod_cast hs'.le
  have hfinite : m < infiniteMagnitude := by
    apply hround.lt_infiniteMagnitude
    calc (s : ℚ) ≤ 10 ^ 17 := hsQ'
      _ ≤ 2 ^ (57 : Int) := by norm_num
      _ ≤ 2 ^ (1023 : Int) := zpow_le_zpow_right₀ (by norm_num) (by norm_num)
  have hmag : (ofNat s).magnitude = m := by
    rw [ofNat, heq, (ofMagnitude_min false hfinite).1, (ofMagnitude_min false hfinite).2]
  have hnormal : (2 : ℚ) ^ (-1022 : Int) ≤ s := by
    calc (2 : ℚ) ^ (-1022 : Int) ≤ 2 ^ (0 : Int) := zpow_le_zpow_right₀ (by norm_num) (by norm_num)
      _ ≤ s := by rwa [zpow_zero]
  exact ⟨hround.within hmag hnormal, hround.value_eq_cast hmag⟩

/-- A significand that is not zero becomes a double that is not. -/
theorem ofNat_pos (hs : 0 < s) (hs' : s < 10 ^ 17) : 0 < (ofNat s).value :=
  (ofNat_spec hs hs').1.pos (by norm_num) (by exact_mod_cast hs)

/-- A significand of 17 digits is at most two to the power of sixty. -/
theorem ofNat_le (hs : 0 < s) (hs' : s < 10 ^ 17) : (ofNat s).value ≤ 2 ^ 60 := by
  have hsQ : (s : ℚ) ≤ 10 ^ 17 := by exact_mod_cast hs'.le
  have hright := (ofNat_spec hs hs').1.right
  linarith

/-- Powers of ten in the table are positive. -/
theorem powerOfTen_pos (hn : n ≤ 308) : 0 < (powerOfTen n).value :=
  (within_powerOfTen (powerWithin_of_le hn)).pos (by norm_num) (by positivity)

/-- They are not small either. -/
theorem half_le_powerOfTen (hn : n ≤ 308) : 1 / 2 ≤ (powerOfTen n).value := by
  have hten : (1 : ℚ) ≤ 10 ^ n := one_le_pow₀ (by norm_num)
  have hleft := (within_powerOfTen (powerWithin_of_le hn)).left
  have hle : (1 + ((59 : Nat) : ℚ) / 2 ^ 59) * (powerOfTen n).value ≤ 2 * (powerOfTen n).value := by
    have hpos := (powerOfTen_pos hn).le
    gcongr
    norm_num
  linarith

/-- Powers of ten up to the twenty-second are exact. -/
theorem powerOfTen_value (hn : n ≤ 22) : (powerOfTen n).value = 10 ^ n := by
  obtain ⟨hleft, hright⟩ := within_powerOfTen (powerWithin_zero_of_le hn)
  norm_num at hleft hright
  exact le_antisymm hright hleft

end Factors

/-! ## Growth -/

/-- The value of a double is on the grid of its exponent. -/
theorem onGrid_value (x : Double) : OnGrid x.exponent x.value := by
  have hpow : (0 : ℚ) < 2 ^ x.exponent := by positivity
  refine ⟨x.exponent_ge, ?_, ?_⟩
  · have hlt : (x.significand : ℚ) < 2 ^ 53 := by exact_mod_cast x.significand_lt
    have htop : (2 : ℚ) ^ (x.exponent + 53) = 2 ^ 53 * 2 ^ x.exponent := two_zpow_add x.exponent 53
    rw [htop]
    exact mul_lt_mul_of_pos_right hlt hpow
  · rcases x.exponent_ge.eq_or_lt with heq | hlt
    · exact .inl heq.symm
    · right
      have hle : (2 ^ 52 : ℚ) ≤ x.significand := by exact_mod_cast x.hiddenBit_le_significand hlt
      have hlead : (2 : ℚ) ^ (x.exponent + 52) = 2 ^ 52 * 2 ^ x.exponent := two_zpow_add x.exponent 52
      rw [hlead]
      exact mul_le_mul_of_nonneg_right hle hpow.le

/-- The place of a double on the grid is its magnitude. -/
theorem place_value (x : Double) : place x.exponent x.value = x.magnitude := by
  have heq : ((x.magnitude : Int) : ℚ) = (((x.exponent + 1074) * hiddenBit + x.significand : Int) : ℚ) := by
    rw [x.magnitude_eq]
  have hunits : x.value * 2 ^ (-x.exponent) = x.significand := by
    rw [value, mul_assoc, ← zpow_add₀ two_ne_zero, add_neg_cancel, zpow_zero, mul_one]
  unfold place
  rw [hunits]
  unfold hiddenBit at heq
  push_cast at heq
  rw [heq]
  norm_num

/-- What is cut at infinity is no greater than before. -/
theorem magnitude_ofMagnitude_min_le (negative : Bool) (m : Nat) :
    (ofMagnitude negative (min m infiniteMagnitude)).magnitude ≤ m := by
  have hlt : min m infiniteMagnitude < signBit := (min_le_right _ _).trans_lt (by decide)
  rw [magnitude_ofMagnitude _ _ hlt]
  exact min_le_left _ _

/-- A rounded ratio can be infinite, but it is always a number. -/
theorem magnitude_ofRatio_le (negative : Bool) (num den : Nat) :
    (ofRatio negative num den).magnitude ≤ infiniteMagnitude := by
  unfold ofRatio
  split
  · exact (magnitude_ofMagnitude negative 0 (by decide)).trans_le (Nat.zero_le _)
  · rw [magnitude_ofMagnitude _ _ ((min_le_right _ _).trans_lt (by decide))]
    exact min_le_right _ _

/-- A significand becomes a double far from infinity. -/
theorem magnitude_ofRatio_one_le (negative : Bool) {n : Nat} (hn : n ≤ Json.maxSignificand) :
    (ofRatio negative n 1).magnitude ≤ 1088 * hiddenBit := by
  rcases Nat.eq_zero_or_pos n with rfl | hpos
  · exact (magnitude_ofMagnitude negative 0 (by decide)).trans_le (Nat.zero_le _)
  obtain ⟨m, hround, heq⟩ := exists_roundsTo negative hpos Nat.one_pos
  rw [Nat.cast_one, div_one] at hround
  obtain ⟨e, hgrid, -, hhigh⟩ := hround.place
  have hnQ : (n : ℚ) ≤ 2 ^ 64 := by
    have hnQ : (n : ℚ) ≤ (Json.maxSignificand : Nat) := by exact_mod_cast hn
    exact hnQ.trans (by norm_num [Json.maxSignificand])
  have hplace : place e n ≤ 1087 * 2 ^ 52 := by
    calc place e n ≤ place 12 n := hgrid.place_le (by norm_num)
      _ = 1086 * 2 ^ 52 + n / 2 ^ 12 := by unfold place; norm_num; ring
      _ ≤ 1086 * 2 ^ 52 + 2 ^ 64 / 2 ^ 12 := by gcongr
      _ = 1087 * 2 ^ 52 := by norm_num
  have hm : m ≤ 1088 * hiddenBit := by
    have hcast : (m : ℚ) ≤ ((1088 * hiddenBit : Nat) : ℚ) := by
      unfold hiddenBit
      push_cast
      linarith
    exact_mod_cast hcast
  rw [heq]
  exact (magnitude_ofMagnitude_min_le negative m).trans hm

/-- A division by a power of ten hardly goes up. -/
theorem magnitude_div_le {x y : Double} (hy : 1 / 2 ≤ y.value) :
    (x.div y).magnitude ≤ x.magnitude + (2 ^ 53 + 1) := by
  rcases Nat.eq_zero_or_pos x.magnitude with hzero | hpos
  · have hratio : x.ratio.1 = 0 := by
      unfold ratio shiftRatio
      split <;> simp [significand_eq_zero hzero]
    rw [div, hratio, Nat.zero_mul, ofRatio, if_pos rfl]
    exact (magnitude_ofMagnitude _ 0 (by decide)).trans_le (Nat.zero_le _)
  · obtain ⟨m, hround, heq⟩ := exists_roundsTo_div (value_pos hpos) (lt_of_lt_of_le (by norm_num) hy)
    obtain ⟨e, hgrid, -, hhigh⟩ := hround.place
    -- Twice the dividend is one binade above it, which is what the magnitude can grow by.
    have hquotient : x.value / y.value ≤ 2 * x.value := by
      rw [div_le_iff₀ (lt_of_lt_of_le (by norm_num) hy)]
      nlinarith [value_pos hpos]
    have hplace := x.onGrid_value.place_le_add hgrid (by norm_num) hquotient
    rw [place_value] at hplace
    have hm : m ≤ x.magnitude + (2 ^ 53 + 1) := by
      have hcast : (m : ℚ) ≤ ((x.magnitude + (2 ^ 53 + 1) : Nat) : ℚ) := by
        push_cast
        linarith
      exact_mod_cast hcast
    rw [heq]
    exact (magnitude_ofMagnitude_min_le _ m).trans hm

end Double

namespace Json

open Double

/-! ## The operation -/

/-- The result of an operation that may be out of range. -/
def ranged (m : Nat) : Except Fault Double :=
  if m < infiniteMagnitude then .ok (ofMagnitude false m) else .error .malformed

/-- The scaled number is the rounding of this value. -/
def ScalesFrom (s : Nat) (e : Int) (w : ℚ) : Prop :=
  ∃ m, RoundsTo w m ∧ scale s e = ranged m

section Scale

variable {s n : Nat}

/-- Scaling up multiplies by a power of ten once. -/
theorem scalesFrom_mul (hs : 0 < s) (hs' : s < 10 ^ 17) (hn : n ≤ 308) :
    ScalesFrom s n ((ofNat s).value * (powerOfTen n).value) := by
  obtain ⟨m, hround, heq⟩ := exists_roundsTo_mul (ofNat_pos hs hs') (powerOfTen_pos hn)
  refine ⟨m, hround, ?_⟩
  have hsign : ((ofNat s).isNegative != (powerOfTen n).isNegative) = false := by
    rw [isNegative_ofNat, powerOfTen, isNegative_ofNat]
    rfl
  rw [hsign] at heq
  have hmag : (ofMagnitude false (min m infiniteMagnitude)).magnitude = min m infiniteMagnitude :=
    magnitude_ofMagnitude _ _ (lt_of_le_of_lt (min_le_right _ _) (by decide))
  unfold scale ranged
  dsimp only
  rw [if_pos (by omega), if_pos (by omega), Int.toNat_natCast, heq, isInfinite, hmag]
  by_cases hfinite : m < infiniteMagnitude
  · rw [if_pos hfinite, min_eq_left hfinite.le, if_neg (by simpa using hfinite.ne)]
  · rw [if_neg hfinite, min_eq_right (not_lt.mp hfinite), if_pos (by simp)]

/-- A quotient of numbers is in range when the first is small. -/
theorem exists_div_powerOfTen {x : Double} (hsign : x.isNegative = false) (hx : 0 < x.value) (hx' : x.value ≤ 2 ^ 64)
    (hn : n ≤ 308) :
    ∃ m, RoundsTo (x.value / (powerOfTen n).value) m ∧ m < infiniteMagnitude ∧
      x.div (powerOfTen n) = ofMagnitude false m := by
  have hpower := powerOfTen_pos hn
  obtain ⟨m, hround, heq⟩ := exists_roundsTo_div hx hpower
  have hhalf := half_le_powerOfTen hn
  have hfinite : m < infiniteMagnitude := by
    apply hround.lt_infiniteMagnitude
    calc x.value / (powerOfTen n).value ≤ 2 ^ 64 / (1 / 2) := by gcongr
      _ = 2 ^ (65 : Int) := by norm_num
      _ ≤ 2 ^ (1023 : Int) := zpow_le_zpow_right₀ (by norm_num) (by norm_num)
  have hpowerSign : (powerOfTen n).isNegative = false := isNegative_ofNat _
  rw [hsign, hpowerSign, (ofMagnitude_min _ hfinite).1] at heq
  exact ⟨m, hround, hfinite, heq⟩

/-- Scaling down divides by a power of ten once. -/
theorem scalesFrom_div (hs : 0 < s) (hs' : s < 10 ^ 17) (hn : 0 < n) (hn' : n ≤ 308) :
    ScalesFrom s (-n) ((ofNat s).value / (powerOfTen n).value) := by
  obtain ⟨m, hround, hfinite, heq⟩ :=
    exists_div_powerOfTen (isNegative_ofNat s) (ofNat_pos hs hs') ((ofNat_le hs hs').trans (by norm_num)) hn'
  refine ⟨m, hround, ?_⟩
  unfold scale ranged
  rw [if_neg (by omega), if_pos hfinite, shrink, if_pos (by omega), Int.neg_neg, Int.toNat_natCast, heq]

/-- A power beyond the range is applied in two steps. The first quotient is a normal number when the digits are not one
or two. -/
theorem scalesFrom_far (hs : 3 ≤ s) (hs' : s < 10 ^ 17) (hn : 308 < n) (hn' : n ≤ 341) :
    ∃ y : Double, Within (1 + 1 / 2 ^ 53) ((ofNat s).value / (powerOfTen 308).value) y.value ∧
      ScalesFrom s (-n) (y.value / (powerOfTen (n - 308)).value) := by
  have hpos := ofNat_pos (show 0 < s by omega) hs'
  have hle := ofNat_le (show 0 < s by omega) hs'
  obtain ⟨m, hround, hfinite, heq⟩ := exists_div_powerOfTen (isNegative_ofNat s) hpos
    (hle.trans (by norm_num)) (le_refl 308)
  have hmag : (ofMagnitude false m).magnitude = m := (ofMagnitude_min false hfinite).2
  have hpower := powerOfTen_pos (le_refl 308)
  have hnormal : (2 : ℚ) ^ (-1022 : Int) ≤ (ofNat s).value / (powerOfTen 308).value := by
    have hsQ : (3 : ℚ) ≤ s := by exact_mod_cast hs
    have hdigits := (ofNat_spec (show 0 < s by omega) hs').1.left
    have hten := (within_powerOfTen (powerWithin_of_le (le_refl 308))).right
    have hscale : (101 : ℚ) * 10 ^ 308 ≤ 290 * 2 ^ 1022 := by
      have hnat : 101 * 10 ^ 308 ≤ 290 * 2 ^ 1022 := by decide +kernel
      exact_mod_cast hnat
    have hexp : (2 : ℚ) ^ (-1022 : Int) = (2 ^ 1022)⁻¹ := by rw [zpow_neg, zpow_ofNat]
    have hsmall : (0 : ℚ) < 2 ^ 1022 := by positivity
    rw [le_div_iff₀ hpower, hexp, inv_mul_le_iff₀ hsmall]
    generalize (2 : ℚ) ^ 1022 = binade at hscale hsmall ⊢
    generalize (powerOfTen 308).value = power at hten ⊢
    generalize (10 : ℚ) ^ 308 = ten at hscale hten
    have hbound : binade * (29 / 10) ≤ binade * (ofNat s).value := by
      gcongr
      linarith
    linarith
  have hwithin := hround.within hmag hnormal
  have hypos : 0 < (ofMagnitude false m).value :=
    hwithin.pos (by norm_num) (div_pos hpos (powerOfTen_pos (le_refl 308)))
  have hyle : (ofMagnitude false m).value ≤ 2 ^ 64 := by
    have hhalf := half_le_powerOfTen (le_refl 308)
    generalize (powerOfTen 308).value = power at hwithin hhalf
    calc (ofMagnitude false m).value ≤ (1 + 1 / 2 ^ 53) * ((ofNat s).value / power) := hwithin.right
      _ ≤ 2 * (2 ^ 60 / (1 / 2)) := by gcongr; norm_num
      _ ≤ 2 ^ 64 := by norm_num
  obtain ⟨m', hround', hfinite', heq'⟩ :=
    exists_div_powerOfTen (isNegative_ofMagnitude false m) hypos hyle (show n - 308 ≤ 308 by omega)
  refine ⟨ofMagnitude false m, hwithin, m', hround', ?_⟩
  have hexp : (-((-n : Int) + 308)).toNat = n - 308 := by omega
  unfold scale ranged
  rw [if_neg (by omega), if_pos hfinite', shrink, if_neg (by omega), isZero_eq_false hpos, if_neg Bool.false_ne_true,
    heq, shrink, if_pos (by omega), hexp, heq']

end Scale

/-! ## Decimals of an interval -/

/-- How many neighbours the reader can be off with a decimal of at most seventeen digits. -/
def slack (d : Decimal) : Nat :=
  if d.digits < 2 ^ 53 ∧ -22 ≤ d.exponent ∧ d.exponent ≤ 22 then 0
  else if -308 ≤ d.exponent then 2
  else 3

section Slack

variable {d : Decimal} {n : Nat}

/-- The reader is off by no more than the factor allows. -/
theorem near_scale_of_within {w r : ℚ} {k : Nat} (hround : RoundsTo d.value n)
    (hscale : ScalesFrom d.digits d.exponent w) (hwithin : Within r d.value w) (hr : 1 ≤ r)
    (hk : (r - 1) * 2 ^ 53 < k) :
    ∃ m, scale d.digits d.exponent = ranged m ∧ Near k n m := by
  obtain ⟨m, hm, heq⟩ := hscale
  exact ⟨m, heq, hround.near hm hwithin hr hk⟩

/-- Within the range of powers of ten there is one operation with two rounded operands. -/
theorem exists_scalesFrom (hpos : 0 < d.digits) (hdigits : d.digits < 10 ^ 17) (hlow : -308 ≤ d.exponent)
    (hhigh : d.exponent ≤ 308) :
    ∃ w, ScalesFrom d.digits d.exponent w ∧ Within ((1 + 1 / 2 ^ 53) * (1 + (59 : Nat) / 2 ^ 59)) d.value w ∧
      (d.digits < 2 ^ 53 → -22 ≤ d.exponent → d.exponent ≤ 22 → w = d.value) := by
  obtain ⟨s, e⟩ := d
  dsimp only at hpos hdigits hlow hhigh ⊢
  obtain ⟨hfirst, hexact⟩ := ofNat_spec hpos hdigits
  have hvalue := ofNat_pos hpos hdigits
  have hsQ : (0 : ℚ) ≤ s := Nat.cast_nonneg s
  rcases Int.lt_or_le e 0 with hneg | hnonneg
  · obtain ⟨n, rfl⟩ : ∃ n : Nat, e = -n := ⟨(-e).toNat, by omega⟩
    have hn : n ≤ 308 := by omega
    have hd : Decimal.value ⟨s, -n⟩ = s / 10 ^ n := by rw [Decimal.value, zpow_neg, zpow_natCast, div_eq_mul_inv]
    have hpower := within_powerOfTen (powerWithin_of_le hn)
    refine ⟨_, scalesFrom_div hpos hdigits (by omega) hn, ?_, ?_⟩
    · rw [hd]
      exact hfirst.div hpower hsQ hvalue.le (by positivity) (powerOfTen_pos hn)
    · intro hs hn' _
      rw [hexact hs, powerOfTen_value (by omega), hd]
  · obtain ⟨n, rfl⟩ := Int.eq_ofNat_of_zero_le hnonneg
    have hn : n ≤ 308 := by omega
    have hd : Decimal.value ⟨s, n⟩ = s * 10 ^ n := by rw [Decimal.value, zpow_natCast]
    have hpower := within_powerOfTen (powerWithin_of_le hn)
    refine ⟨_, scalesFrom_mul hpos hdigits hn, ?_, ?_⟩
    · rw [hd]
      exact hfirst.mul hpower hsQ hvalue.le (by positivity) (powerOfTen_pos hn).le
    · intro hs _ hn'
      rw [hexact hs, powerOfTen_value (by omega), hd]

/-- A decimal that one power of ten is enough for is scaled to near the double that it is rounded to. -/
theorem near_scale_of_ge (hround : RoundsTo d.value n) (hpos : 0 < d.digits) (hdigits : d.digits < 10 ^ 17)
    (hlow : -308 ≤ d.exponent) (hhigh : d.exponent ≤ 308) :
    ∃ m, scale d.digits d.exponent = ranged m ∧ Near (slack d) n m := by
  obtain ⟨w, hscale, hwithin, hexact⟩ := exists_scalesFrom hpos hdigits hlow hhigh
  unfold slack
  split_ifs with hsmall
  · rw [hexact hsmall.1 hsmall.2.1 hsmall.2.2] at hscale
    obtain ⟨m, hm, heq⟩ := hscale
    rw [hround.unique hm]
    exact ⟨m, heq, le_refl _, le_refl _⟩
  · exact near_scale_of_within hround hscale hwithin (by norm_num) (by norm_num)

/-- The first powers of ten are rounded less than the others. -/
theorem powerWithin_of_le_33 {n : Nat} (h : n ≤ 33) : powerWithin 53 n = true := by
  have hall : ∀ n < 34, powerWithin 53 n = true := by decide +kernel
  exact hall n (by omega)

/-- The powers of ten up to the greatest are as near as the bound says. -/
theorem powerWithin_308 : powerWithin 7 308 = true := by
  decide +kernel

/-- Beyond the range there are two operations, and the result of the first is rounded, too. -/
theorem exists_scalesFrom_far (hthree : 3 ≤ d.digits) (hdigits : d.digits < 10 ^ 17) (hhigh : d.exponent < -308)
    (hlow : -341 ≤ d.exponent) :
    ∃ w, ScalesFrom d.digits d.exponent w ∧
      Within ((1 + 1 / 2 ^ 53) * (1 + (7 : Nat) / 2 ^ 59) * (1 + 1 / 2 ^ 53) * (1 + (53 : Nat) / 2 ^ 59))
        d.value w := by
  obtain ⟨s, e⟩ := d
  dsimp only at hthree hdigits hlow hhigh ⊢
  have hpos : 0 < s := by omega
  obtain ⟨n, rfl⟩ : ∃ n : Nat, e = -n := ⟨(-e).toNat, by omega⟩
  obtain ⟨k, rfl⟩ : ∃ k, n = 308 + k := ⟨n - 308, by omega⟩
  obtain ⟨y, hy, hscale⟩ := scalesFrom_far hthree hdigits (show 308 < 308 + k by omega) (by omega)
  rw [Nat.add_sub_cancel_left] at hscale
  have hd : Decimal.value ⟨s, -(308 + k : Nat)⟩ = s / 10 ^ 308 / 10 ^ k := by
    rw [Decimal.value, zpow_neg, zpow_natCast, pow_add, div_div, div_eq_mul_inv]
  have hsQ : (0 : ℚ) ≤ s := Nat.cast_nonneg s
  have hten := powerOfTen_pos (le_refl 308)
  have hvalue := ofNat_pos hpos hdigits
  have hfirst := (ofNat_spec hpos hdigits).1.div (within_powerOfTen powerWithin_308) hsQ hvalue.le (by positivity) hten
  have hypos := hy.pos (by norm_num) (div_pos hvalue hten)
  refine ⟨_, hscale, ?_⟩
  rw [hd]
  refine Within.div ?_ (within_powerOfTen (powerWithin_of_le_33 (by omega))) ?_ hypos.le ?_ (powerOfTen_pos (by omega))
  · exact hfirst.trans hy (by norm_num) (by norm_num)
  · positivity
  · positivity

/-- Scaling by two steps ends next to the rounded quotient. -/
def farNear (s n : Nat) : Bool :=
  let x := ofRatio false s (tenPow n)
  let y := shrink 4 (ofNat s) (-n)
  decide (y.isNegative = false ∧ y.magnitude < infiniteMagnitude ∧
    x.magnitude ≤ y.magnitude + 3 ∧ y.magnitude ≤ x.magnitude + 3)

/-- One and two are too small for the bound on errors: the first quotient has fewer digits than a normal number. -/
theorem farNear_of_lt_three {s n : Nat} (hs : 0 < s) (hs' : s < 3) (hn : 308 < n) (hn' : n ≤ 341) :
    farNear s n = true := by
  have hall : ∀ s < 2, ∀ k < 33, farNear (s + 1) (k + 309) = true := by decide +kernel
  have hcase := hall (s - 1) (by omega) (n - 309) (by omega)
  rwa [Nat.sub_add_cancel hs, Nat.sub_add_cancel hn] at hcase

/-- A decimal with hardly any digits is scaled to near its double even where two powers are taken. -/
theorem near_scale_small (hround : RoundsTo d.value n) (hfinite : n < infiniteMagnitude) (hpos : 0 < d.digits)
    (hsmall : d.digits < 3) (hhigh : d.exponent < -308) (hlow : -341 ≤ d.exponent) :
    ∃ m, scale d.digits d.exponent = ranged m ∧ Near 3 n m := by
  obtain ⟨s, e⟩ := d
  dsimp only at hpos hsmall hlow hhigh ⊢
  obtain ⟨k, rfl⟩ : ∃ k : Nat, e = -k := ⟨(-e).toNat, by omega⟩
  have hd : Decimal.value ⟨s, -k⟩ = (s : ℚ) / (tenPow k : Nat) := by
    rw [Decimal.value, zpow_neg, zpow_natCast, cast_tenPow, div_eq_mul_inv]
  obtain ⟨m, hm, heq⟩ := exists_roundsTo false hpos (tenPow_pos k)
  rw [hd] at hround
  obtain rfl := hround.unique hm
  obtain ⟨hsign, hlt, hnear⟩ := of_decide_eq_true (farNear_of_lt_three hpos hsmall (show 308 < k by omega) (by omega))
  rw [heq, (ofMagnitude_min false hfinite).1, (ofMagnitude_min false hfinite).2] at hnear
  refine ⟨_, ?_, hnear⟩
  have hself := ofMagnitude_isNegative_magnitude (shrink 4 (ofNat s) (-k))
  rw [hsign] at hself
  rw [ranged, if_pos hlt, hself, scale, if_neg (by omega)]

/-- So is any other decimal where two powers are taken. -/
theorem near_scale_of_lt (hround : RoundsTo d.value n) (hfinite : n < infiniteMagnitude) (hpos : 0 < d.digits)
    (hdigits : d.digits < 10 ^ 17) (hhigh : d.exponent < -308) (hlow : -341 ≤ d.exponent) :
    ∃ m, scale d.digits d.exponent = ranged m ∧ Near 3 n m := by
  by_cases hthree : 3 ≤ d.digits
  · obtain ⟨w, hscale, hwithin⟩ := exists_scalesFrom_far hthree hdigits hhigh hlow
    exact near_scale_of_within hround hscale hwithin (by norm_num) (by norm_num)
  · exact near_scale_small hround hfinite hpos (by omega) hhigh hlow

end Slack

section Holds

variable {x : Double} {d : Decimal}

/-- The value of a decimal as a ratio. -/
theorem exists_ratio (d : Decimal) (hpos : 0 < d.digits) :
    ∃ num den : Nat, 0 < num ∧ 0 < den ∧ d.value = (num : ℚ) / den := by
  unfold Decimal.value
  by_cases hsign : 0 ≤ d.exponent
  · refine ⟨d.digits * tenPow d.exponent.toNat, 1, Nat.mul_pos hpos (tenPow_pos _), Nat.one_pos, ?_⟩
    rw [ten_zpow_eq_cast hsign, Nat.cast_mul, Nat.cast_one, div_one]
  · exact ⟨d.digits, tenPow (-d.exponent).toNat, hpos, tenPow_pos _, by rw [ten_zpow_eq_inv hsign, div_eq_mul_inv]⟩

/-- A decimal in the interval of a double is rounded to the double. -/
theorem roundsTo_of_holds (hpos : 0 < x.magnitude) (h : (RoundingInterval.of x).Holds d.value) :
    RoundsTo d.value x.magnitude := by
  obtain ⟨num, den, hnum, hden, hvalue⟩ := exists_ratio d (digits_pos_of_holds hpos h)
  have hgrid := onGrid_gridExponent hnum hden
  rw [← hvalue] at hgrid
  obtain ⟨n, hnear, hmag⟩ := isNearest_of_holds hpos h hgrid
  exact ⟨_, n, hgrid, hnear, hmag⟩

/-- A decimal in the interval of a double is not too small to scale. -/
theorem exponent_ge_of_holds (hpos : 0 < x.magnitude) (hdigits : d.digits < 10 ^ 17)
    (h : (RoundingInterval.of x).Holds d.value) : -341 ≤ d.exponent := by
  have hlead := decimal_leading_ge hpos h
  have hlength : (digitsOf d.digits).length ≤ 17 := (Nat.length_toDigits_le_iff (by decide) (by decide)).mpr hdigits
  unfold Decimal.leading at hlead
  omega

/-- A decimal of at most seventeen digits in the interval of a number is read as a neighbour of the number, or is out
of range. -/
theorem near_scale (hpos : 0 < x.magnitude) (hfinite : x.magnitude < infiniteMagnitude) (hdigits : d.digits < 10 ^ 17)
    (h : (RoundingInterval.of x).Holds d.value) :
    ∃ m, scale d.digits d.exponent = ranged m ∧ Near (slack d) x.magnitude m := by
  have hround := roundsTo_of_holds hpos h
  have hdpos := digits_pos_of_holds hpos h
  by_cases hlow : -308 ≤ d.exponent
  · exact near_scale_of_ge hround hdpos hdigits hlow (decimal_exponent_le hfinite hdpos.ne' h)
  · rw [slack, if_neg (by omega), if_neg hlow]
    exact near_scale_of_lt hround hfinite hdpos hdigits (by omega) (exponent_ge_of_holds hpos hdigits h)

end Holds

/-! ## Numbers in range -/

/-- A step of shrinking adds little to a magnitude. -/
theorem magnitude_shrink_le (steps : Nat) (x : Double) (e : Int) :
    (shrink steps x e).magnitude ≤ x.magnitude + steps * (2 ^ 53 + 1) := by
  induction steps generalizing x e with
  | zero => exact Nat.le_add_right _ _
  | succ steps ih =>
    rw [shrink]
    split_ifs with hrange hzero
    · have hdiv := magnitude_div_le (x := x) (half_le_powerOfTen (n := (-e).toNat) (by omega))
      omega
    · exact Nat.le_add_right _ _
    · have hdiv := magnitude_div_le (x := x) (half_le_powerOfTen (le_refl 308))
      have hlater := ih (x.div (powerOfTen 308)) (e + 308)
      omega

/-- Numbers that are read are finite. -/
theorem isFinite_of_scale {s : Nat} {e : Int} {x : Double} (hs : s ≤ maxSignificand) (h : scale s e = .ok x) :
    x.isFinite = true := by
  have hofNat : (ofNat s).magnitude ≤ 1088 * hiddenBit := magnitude_ofRatio_one_le false hs
  simp only [scale] at h
  refine decide_eq_true ?_
  split_ifs at h with hup hrange hinfinite
  · cases h
    have hle := magnitude_ofRatio_le ((ofNat s).isNegative != (powerOfTen e.toNat).isNegative)
      ((ofNat s).ratio.1 * (powerOfTen e.toNat).ratio.1) ((ofNat s).ratio.2 * (powerOfTen e.toNat).ratio.2)
    have hne : ((ofNat s).mul (powerOfTen e.toNat)).magnitude ≠ infiniteMagnitude := by
      simpa [isInfinite] using hinfinite
    exact lt_of_le_of_ne hle hne
  · cases h
    exact hofNat.trans_lt (by decide)
  · -- Four steps from a 64-bit number do not come near infinity.
    cases h
    have hshrink := magnitude_shrink_le 4 (ofNat s) e
    unfold infiniteMagnitude hiddenBit at *
    omega

end Json

end MetricQuery
