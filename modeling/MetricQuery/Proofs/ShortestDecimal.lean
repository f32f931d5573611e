import MetricQuery.Expr.Literal
import MetricQuery.Proofs.DecimalText
import MetricQuery.Proofs.NearestDouble

/-!
# The shortest decimal reads back

The digits of a number are found by a search through decimal grids that stops at the first one with a
point in the rounding interval. The search always succeeds within seventeen grids: the last of them is
finer than the interval is wide, so one of the two points around the number lies inside
(`pick?_isSome_of_lt`). Whatever it finds lies in the interval, hence rounds back to the number
(`NearestDouble`), and dropping final zeros does not change the value.

With the plain layout this gives `ofText?_queryDigits`: the digits of a finite number in a query are
read as its absolute value again, bit for bit.
-/

set_option autoImplicit false

namespace MetricQuery

/-- The number that a decimal stands for. -/
def Decimal.value (d : Decimal) : ℚ :=
  d.digits * 10 ^ d.exponent

/-- The power of ten is what its name says. -/
theorem cast_tenPow (n : Nat) : ((tenPow n : Nat) : ℚ) = 10 ^ n := by
  unfold tenPow
  exact_mod_cast rfl

/-- A negative power of ten as a denominator. -/
theorem ten_zpow_eq_inv {k : Int} (hk : ¬ 0 ≤ k) : (10 : ℚ) ^ k = ((tenPow (-k).toNat : Nat) : ℚ)⁻¹ := by
  obtain ⟨n, hn⟩ := Int.eq_ofNat_of_zero_le (show 0 ≤ -k by omega)
  have hk' : k = -(n : Int) := by omega
  rw [hk', cast_tenPow, zpow_neg, zpow_natCast, Int.neg_neg, Int.toNat_natCast]

/-- A power of ten that is no fraction is a natural number. -/
theorem ten_zpow_eq_cast {k : Int} (hk : 0 ≤ k) : (10 : ℚ) ^ k = ((tenPow k.toNat : Nat) : ℚ) := by
  obtain ⟨n, rfl⟩ := Int.eq_ofNat_of_zero_le hk
  rw [cast_tenPow, zpow_natCast, Int.toNat_natCast]

/-- A power of ten is positive. -/
theorem tenPow_pos (n : Nat) : 0 < tenPow n :=
  Nat.pow_pos (by decide)

/-- The number of digits bounds a number from above. -/
theorem lt_ten_pow_length_digitsOf (n : Nat) : n < 10 ^ (digitsOf n).length :=
  (Nat.length_toDigits_le_iff (by decide) (List.length_pos_iff.mpr (digitsOf_ne_nil n))).mp (Nat.le_refl _)

/-- No digit before the first is zero. -/
theorem ten_pow_le_of_ne_zero {n : Nat} (hn : n ≠ 0) : 10 ^ ((digitsOf n).length - 1) ≤ n := by
  by_cases hlen : 1 < (digitsOf n).length
  · have hle := Nat.length_toDigits_le_iff (n := n) (k := (digitsOf n).length - 1)
      (show 1 < 10 by decide) (by omega)
    have hnot : ¬ n < 10 ^ ((digitsOf n).length - 1) := by
      rw [← hle]
      unfold digitsOf at hlen ⊢
      omega
    omega
  · rw [show (digitsOf n).length - 1 = 0 by omega]
    omega

/-- A decimal that is not zero is at least a unit of its power of ten. -/
theorem Decimal.ten_zpow_le_value {d : Decimal} (h : d.digits ≠ 0) : 10 ^ d.exponent ≤ d.value := by
  have hd : (1 : ℚ) ≤ d.digits := by exact_mod_cast Nat.one_le_iff_ne_zero.mpr h
  exact le_mul_of_one_le_left (by positivity) hd

/-- A decimal does not reach beyond the power of ten after its leading digit. -/
theorem Decimal.value_le_ten_zpow (d : Decimal) : d.value ≤ 10 ^ (d.leading + 1) := by
  have hdigits : (d.digits : ℚ) ≤ 10 ^ ((digitsOf d.digits).length : Int) := by
    rw [zpow_natCast]
    exact_mod_cast (lt_ten_pow_length_digitsOf d.digits).le
  calc d.value ≤ 10 ^ ((digitsOf d.digits).length : Int) * 10 ^ d.exponent :=
        mul_le_mul_of_nonneg_right hdigits (by positivity)
    _ = 10 ^ ((digitsOf d.digits).length + d.exponent) := (zpow_add₀ (by norm_num) _ _).symm
    _ = 10 ^ (d.leading + 1) := by
      congr 1
      unfold Decimal.leading
      ring

namespace RoundingInterval

variable {i : RoundingInterval}

/-- Both comparisons of the containment test are comparisons of the decimal with an end. -/
theorem scaled_compare (hden : 0 < i.den) (n s : Nat) (k : Int) :
    (n * (if 0 ≤ k then 1 else tenPow (-k).toNat) ≤
      (if 0 ≤ k then s * tenPow k.toNat * i.den else s * i.den) ↔
        (n : ℚ) / i.den ≤ s * 10 ^ k) ∧
    ((if 0 ≤ k then s * tenPow k.toNat * i.den else s * i.den) ≤
      n * (if 0 ≤ k then 1 else tenPow (-k).toNat) ↔ (s : ℚ) * 10 ^ k ≤ n / i.den) := by
  have hdenQ : (0 : ℚ) < i.den := by exact_mod_cast hden
  rw [div_le_iff₀ hdenQ, le_div_iff₀ hdenQ]
  split_ifs with hk
  · rw [ten_zpow_eq_cast hk]
    constructor
    · rw [Nat.mul_one]
      exact_mod_cast Iff.rfl
    · rw [Nat.mul_one]
      exact_mod_cast Iff.rfl
  · have hten : (0 : ℚ) < (tenPow (-k).toNat : Nat) := by exact_mod_cast tenPow_pos _
    rw [ten_zpow_eq_inv hk, mul_right_comm, ← div_eq_mul_inv, le_div_iff₀ hten, div_le_iff₀ hten]
    exact ⟨by exact_mod_cast Iff.rfl, by exact_mod_cast Iff.rfl⟩

/-- The containment test is right. -/
theorem contains_iff (hden : 0 < i.den) (s : Nat) (k : Int) :
    i.contains s k = true ↔ i.Holds (s * 10 ^ k) := by
  obtain ⟨hlow, hlow'⟩ := scaled_compare hden i.low s k
  obtain ⟨hhigh', hhigh⟩ := scaled_compare hden i.high s k
  unfold contains Holds
  dsimp only
  cases hclosed : i.closed with
  | true =>
    simp only [if_true, decide_eq_true_eq]
    exact and_congr hlow hhigh
  | false =>
    simp only [Bool.false_eq_true, if_false, decide_eq_true_eq]
    rw [← not_le, ← not_le, ← not_le, ← not_le]
    exact and_congr (not_congr hlow') (not_congr hhigh')

/-! ## The search -/

/-- The first grid is not above the number. -/
theorem ten_zpow_decade_le (hden : 0 < i.den) (hvalue : 0 < i.value) :
    (10 : ℚ) ^ i.decade ≤ i.midValue := by
  have hdenQ : (0 : ℚ) < i.den := by exact_mod_cast hden
  unfold decade midValue
  split_ifs with hcmp
  · have hpos : 0 < (digitsOf (i.value / i.den)).length :=
      List.length_pos_iff.mpr (digitsOf_ne_nil _)
    have hquot : 0 < i.value / i.den := Nat.div_pos hcmp hden
    rw [show ((digitsOf (i.value / i.den)).length : Int) - 1 =
      (((digitsOf (i.value / i.den)).length - 1 : Nat) : Int) by omega, zpow_natCast, le_div_iff₀ hdenQ]
    have hmul := Nat.mul_le_of_le_div _ _ _ (ten_pow_le_of_ne_zero hquot.ne')
    exact_mod_cast hmul
  · -- Below one the digits of the inverse, rounded up, give the place.
    have hlt := lt_ten_pow_length_digitsOf ((i.den - 1) / i.value)
    rw [Nat.div_lt_iff_lt_mul hvalue] at hlt
    have hle : i.den ≤ 10 ^ (digitsOf ((i.den - 1) / i.value)).length * i.value := by omega
    have hleQ : (i.den : ℚ) ≤ 10 ^ (digitsOf ((i.den - 1) / i.value)).length * i.value := by
      exact_mod_cast hle
    rw [zpow_neg, zpow_natCast, le_div_iff₀ hdenQ, inv_mul_le_iff₀ (by positivity)]
    exact hleQ

/-- The first grid is the coarsest that is not above the number. -/
theorem midValue_lt_ten_zpow (hden : 0 < i.den) (hvalue : 0 < i.value) : i.midValue < 10 ^ (i.decade + 1) := by
  have hdenQ : (0 : ℚ) < i.den := by exact_mod_cast hden
  unfold decade midValue
  split_ifs with hcmp
  · rw [sub_add_cancel, zpow_natCast, div_lt_iff₀ hdenQ]
    have hlt := lt_ten_pow_length_digitsOf (i.value / i.den)
    rw [Nat.div_lt_iff_lt_mul hden] at hlt
    exact_mod_cast hlt
  · have hquot : 0 < (i.den - 1) / i.value := Nat.div_pos (by omega) hvalue
    have hlength : 0 < (digitsOf ((i.den - 1) / i.value)).length := List.length_pos_iff.mpr (digitsOf_ne_nil _)
    have hle := Nat.mul_le_of_le_div _ _ _ (ten_pow_le_of_ne_zero hquot.ne')
    have hlt : (10 ^ ((digitsOf ((i.den - 1) / i.value)).length - 1) : ℚ) * i.value < i.den := by
      have hnat : 10 ^ ((digitsOf ((i.den - 1) / i.value)).length - 1) * i.value < i.den := by omega
      exact_mod_cast hnat
    rw [show -((digitsOf ((i.den - 1) / i.value)).length : Int) + 1 =
      -(((digitsOf ((i.den - 1) / i.value)).length - 1 : Nat) : Int) by omega, zpow_neg, zpow_natCast,
      div_lt_iff₀ hdenQ, lt_inv_mul_iff₀ (by positivity)]
    exact hlt

/-- The whole part of a quotient of natural numbers. -/
theorem cast_div_bounds (num : Nat) {den : Nat} (hden : 0 < den) :
    ((num / den : Nat) : ℚ) ≤ (num : ℚ) / den ∧ (num : ℚ) / den < ((num / den + 1 : Nat) : ℚ) := by
  have hdenQ : (0 : ℚ) < den := by exact_mod_cast hden
  rw [le_div_iff₀ hdenQ, div_lt_iff₀ hdenQ]
  constructor
  · exact_mod_cast Nat.div_mul_le_self num den
  · have hlt := Nat.lt_mul_div_succ num hden
    rw [Nat.mul_comm] at hlt
    exact_mod_cast hlt

/-- The two grid points that are looked at stand around the number. -/
theorem position_spec (hden : 0 < i.den) (k : Int) :
    ((i.position k).1 : ℚ) * 10 ^ k ≤ i.midValue ∧
      i.midValue < (((i.position k).1 + 1 : Nat) : ℚ) * 10 ^ k := by
  have hten : (0 : ℚ) < 10 ^ k := by positivity
  rw [← le_div_iff₀ hten, ← div_lt_iff₀ hten]
  unfold position midValue
  dsimp only
  by_cases hk : 0 ≤ k
  · simp only [if_pos hk]
    have hratio : (i.value : ℚ) / i.den / 10 ^ k = (i.value : ℚ) / ((i.den * tenPow k.toNat : Nat) : ℚ) := by
      rw [ten_zpow_eq_cast hk, div_div, Nat.cast_mul]
    rw [hratio]
    exact cast_div_bounds _ (Nat.mul_pos hden (tenPow_pos _))
  · simp only [if_neg hk]
    have hratio : (i.value : ℚ) / i.den / 10 ^ k = ((i.value * tenPow (-k).toNat : Nat) : ℚ) / i.den := by
      rw [ten_zpow_eq_inv hk, div_inv_eq_mul, Nat.cast_mul, div_mul_eq_mul_div]
    rw [hratio]
    exact cast_div_bounds _ hden

/-- What is picked from a grid lies in the interval. -/
theorem holds_of_pick? (hden : 0 < i.den) {tie : Tie} {k : Int} {s : Nat}
    (h : i.pick? tie k = some s) : i.Holds (s * 10 ^ k) := by
  rw [← contains_iff hden]
  unfold pick? at h
  dsimp only at h
  split at h
  · rename_i hlow hhigh
    cases h
    unfold nearer
    split
    · exact hlow
    · exact hhigh
    · split
      · exact hhigh
      · split
        · exact hlow
        · exact hhigh
  · rename_i hlow _
    cases h
    exact hlow
  · rename_i _ hhigh
    cases h
    exact hhigh
  · cases h

/-- Nothing is picked only if both points are outside. -/
theorem not_holds_of_pick? (hden : 0 < i.den) {tie : Tie} {k : Int} (h : i.pick? tie k = none) :
    ¬ i.Holds ((i.position k).1 * 10 ^ k) ∧ ¬ i.Holds (((i.position k).1 + 1 : Nat) * 10 ^ k) := by
  rw [← contains_iff hden, ← contains_iff hden]
  unfold pick? at h
  dsimp only at h
  split at h
  · cases h
  · cases h
  · cases h
  · rename_i hlow hhigh
    rw [hlow, hhigh]
    exact ⟨Bool.false_ne_true, Bool.false_ne_true⟩

/-- A grid finer than the interval is wide has a point in it next to the number. -/
theorem pick?_isSome_of_lt (hden : 0 < i.den) (tie : Tie) {k : Int}
    (hlow : i.lowValue < i.midValue) (hhigh : i.midValue < i.highValue)
    (hfine : (10 : ℚ) ^ k < i.highValue - i.lowValue) : (i.pick? tie k).isSome = true := by
  obtain ⟨hbelow, habove⟩ := position_spec hden k
  by_contra hnone
  obtain ⟨hleft, hright⟩ := not_holds_of_pick? hden (by simpa using hnone)
  -- Neither point is inside, so they stand at the ends or beyond.
  have h1 : ((i.position k).1 : ℚ) * 10 ^ k ≤ i.lowValue := by
    by_contra hgt
    exact hleft (holds_of_lt (not_le.mp hgt) (lt_of_le_of_lt hbelow hhigh))
  have h2 : i.highValue ≤ (((i.position k).1 + 1 : Nat) : ℚ) * 10 ^ k := by
    by_contra hlt
    exact hright (holds_of_lt (lt_trans hlow habove) (not_le.mp hlt))
  push_cast at h2
  linarith

/-- The search returns what is picked from the first grid with a point in the interval. -/
theorem pick?_search (tie : Tie) {grids : Nat} {k : Int} {j : Nat} (hj : j < grids)
    (hpick : (i.pick? tie (k - j)).isSome = true) :
    ∃ first ≤ j, (i.search tie grids k).exponent = k - first ∧
      i.pick? tie (k - first) = some (i.search tie grids k).digits ∧
      ∀ coarser < first, i.pick? tie (k - coarser) = none := by
  induction grids generalizing k j with
  | zero => omega
  | succ grids ih =>
    unfold search
    split
    · rename_i s hs
      refine ⟨0, Nat.zero_le _, (sub_zero k).symm, ?_, nofun⟩
      rw [Nat.cast_zero, sub_zero]
      exact hs
    · rename_i hnone
      have hshift (n : Nat) : k - 1 - (n : Int) = k - ((n + 1 : Nat) : Int) := by push_cast; ring
      cases j with
      | zero =>
        rw [Nat.cast_zero, sub_zero, hnone] at hpick
        cases hpick
      | succ j =>
        obtain ⟨first, hfirst, hexp, hfound, hcoarser⟩ := ih (k := k - 1) (j := j) (by omega) (hshift j ▸ hpick)
        rw [hshift] at hexp hfound
        refine ⟨first + 1, by omega, hexp, hfound, fun coarser hlt => ?_⟩
        cases coarser with
        | zero => rwa [Nat.cast_zero, sub_zero]
        | succ coarser => exact hshift coarser ▸ hcoarser coarser (by omega)

/-- What is picked is one of the two points that are looked at. -/
theorem le_of_pick? {tie : Tie} {k : Int} {s : Nat} (h : i.pick? tie k = some s) : s ≤ (i.position k).1 + 1 := by
  unfold pick? at h
  dsimp only at h
  split at h
  · cases h
    unfold nearer
    split
    · omega
    · omega
    · split
      · omega
      · split <;> omega
  · cases h
    omega
  · cases h
    omega
  · cases h

end RoundingInterval

/-- Dropping final zeros keeps the value. -/
theorem Decimal.value_trim (fuel : Nat) (d : Decimal) : (d.trim fuel).value = d.value := by
  induction fuel generalizing d with
  | zero => rfl
  | succ fuel ih =>
    unfold Decimal.trim
    split
    · rename_i h
      rw [ih]
      have hdigits : d.digits = 10 * (d.digits / 10) := by omega
      have hcast : (d.digits : ℚ) = 10 * (d.digits / 10 : Nat) := by exact_mod_cast hdigits
      unfold Decimal.value
      rw [hcast, zpow_add₀ (by norm_num), zpow_one]
      ring
    · rfl

/-- Trimming zeros makes no significand greater. -/
theorem Decimal.digits_trim_le (fuel : Nat) (d : Decimal) : (d.trim fuel).digits ≤ d.digits := by
  induction fuel generalizing d with
  | zero => exact le_refl _
  | succ fuel ih =>
    unfold Decimal.trim
    split
    · exact (ih _).trans (Nat.div_le_self _ _)
    · exact le_refl _

/-- A decimal that is no greater than the least with 18 digits is trimmed to 17. -/
theorem Decimal.digits_trim_lt (fuel : Nat) {d : Decimal} (h : d.digits ≤ 10 ^ 17) :
    (d.trim (fuel + 1)).digits < 10 ^ 17 := by
  unfold Decimal.trim
  split
  · have hle := Decimal.digits_trim_le fuel ⟨d.digits / 10, d.exponent + 1⟩
    dsimp only at hle
    omega
  · rename_i hkeep
    omega

namespace Double

open RoundingInterval

variable {x : Double}

/-- A number lies strictly inside its interval. -/
theorem lowValue_lt_midValue (hpos : 0 < x.magnitude) : (of x).lowValue < (of x).midValue := by
  have hpow : (0 : ℚ) < 2 ^ x.exponent := by positivity
  rw [of_lowValue x hpos, of_midValue]
  apply mul_lt_mul_of_pos_right _ hpow
  split_ifs <;> linarith

/-- The middle of an interval is below its upper border. -/
theorem midValue_lt_highValue (x : Double) : (of x).midValue < (of x).highValue := by
  have hpow : (0 : ℚ) < 2 ^ x.exponent := by positivity
  rw [of_midValue, of_highValue]
  apply mul_lt_mul_of_pos_right _ hpow
  linarith

/-- Sixteen places behind the leading digit are finer than the interval is wide. -/
theorem ten_zpow_lt_width (hpos : 0 < x.magnitude) {k : Int}
    (hk : (10 : ℚ) ^ (k + 16) ≤ (of x).midValue) :
    (10 : ℚ) ^ k < (of x).highValue - (of x).lowValue := by
  have hpow : (0 : ℚ) < 2 ^ x.exponent := by positivity
  have hm : (x.significand : ℚ) < 2 ^ 53 := by exact_mod_cast x.significand_lt
  rw [of_midValue, zpow_add₀ (by norm_num)] at hk
  rw [of_lowValue x hpos, of_highValue, ← sub_mul]
  have hk' : (10 : ℚ) ^ k ≤ x.significand / 10 ^ 16 * 2 ^ x.exponent := by
    rw [div_mul_eq_mul_div, le_div_iff₀ (by norm_num)]
    exact_mod_cast hk
  refine lt_of_le_of_lt hk' ?_
  apply mul_lt_mul_of_pos_right _ hpow
  split_ifs with hdense
  · -- Above a power of two the interval is narrower, but so is the significand.
    rw [hdense.1]
    unfold hiddenBit
    norm_num
  · linarith

/-- The middle of the interval is positive. -/
theorem of_value_pos (hpos : 0 < x.magnitude) : 0 < (of x).value := by
  have hmid : 0 < (of x).midValue := lt_trans (lowValue_pos hpos) (lowValue_lt_midValue hpos)
  unfold midValue at hmid
  rcases Nat.eq_zero_or_pos (of x).value with hzero | h
  · rw [hzero, Nat.cast_zero, zero_div] at hmid
    exact absurd hmid (lt_irrefl 0)
  · exact h

/-- The shortest decimal is searched for from the decade on and trimmed. -/
theorem shortest_of_pos (tie : Tie) (hpos : 0 < x.magnitude) :
    x.shortest tie = ((of x).search tie 17 (of x).decade).trim 17 := by
  have hzero : x.isZero = false := by
    unfold isZero
    simp only [decide_eq_false_iff_not]
    omega
  unfold shortest
  rw [hzero, if_neg Bool.false_ne_true]

/-- The search ends on one of the seventeen grids from the leading digit on, the first with a point in the interval. -/
theorem pick?_search_decade (tie : Tie) (hpos : 0 < x.magnitude) :
    ∃ first ≤ 16, ((of x).search tie 17 (of x).decade).exponent = (of x).decade - (first : Nat) ∧
      (of x).pick? tie ((of x).decade - (first : Nat)) = some ((of x).search tie 17 (of x).decade).digits ∧
      ∀ coarser < first, (of x).pick? tie ((of x).decade - (coarser : Nat)) = none := by
  apply pick?_search tie (show 16 < 17 by decide)
  apply pick?_isSome_of_lt (of_den_pos x) tie (lowValue_lt_midValue hpos) (midValue_lt_highValue x)
  apply ten_zpow_lt_width hpos
  rw [show (of x).decade - ((16 : Nat) : Int) + 16 = (of x).decade by push_cast; ring]
  exact ten_zpow_decade_le (of_den_pos x) (of_value_pos hpos)

/-- A point that is picked has one digit for each grid from the leading digit on, or it is the next power of ten. -/
theorem le_ten_pow_of_pick? {tie : Tie} (hpos : 0 < x.magnitude) {j s : Nat}
    (h : (of x).pick? tie ((of x).decade - j) = some s) : s ≤ 10 ^ (j + 1) := by
  have hten : (0 : ℚ) < 10 ^ ((of x).decade - j) := by positivity
  have hlt : (((of x).position ((of x).decade - j)).1 : ℚ) * 10 ^ ((of x).decade - j) <
      10 ^ (j + 1) * 10 ^ ((of x).decade - j) := by
    calc (((of x).position ((of x).decade - j)).1 : ℚ) * 10 ^ ((of x).decade - j) ≤ (of x).midValue :=
          (position_spec (of_den_pos x) _).1
      _ < 10 ^ ((of x).decade + 1) := midValue_lt_ten_zpow (of_den_pos x) (of_value_pos hpos)
      _ = 10 ^ (((j + 1 : Nat) : Int) + ((of x).decade - j)) := by
        congr 1
        push_cast
        ring
      _ = 10 ^ (j + 1) * 10 ^ ((of x).decade - j) := by rw [zpow_add₀ (by norm_num), zpow_natCast]
  have hposition : ((of x).position ((of x).decade - j)).1 < 10 ^ (j + 1) := by
    exact_mod_cast lt_of_mul_lt_mul_right hlt hten.le
  have hle := le_of_pick? h
  omega

/-- The shortest decimal of a positive finite number lies in its interval. -/
theorem holds_shortest (tie : Tie) (hpos : 0 < x.magnitude) :
    (of x).Holds (x.shortest tie).value := by
  obtain ⟨first, -, hexp, hpick, -⟩ := pick?_search_decade tie hpos
  rw [shortest_of_pos tie hpos, Decimal.value_trim, Decimal.value, hexp]
  exact holds_of_pick? (of_den_pos x) hpick

/-- The shortest decimal has seventeen digits at most. The search can end on the next power of ten, which loses its
zeros. -/
theorem shortest_digits_lt (tie : Tie) (hpos : 0 < x.magnitude) : (x.shortest tie).digits < 10 ^ 17 := by
  obtain ⟨first, hfirst, -, hpick, -⟩ := pick?_search_decade tie hpos
  rw [shortest_of_pos tie hpos]
  apply Decimal.digits_trim_lt 16
  exact (le_ten_pow_of_pick? hpos hpick).trans (Nat.pow_le_pow_right (by decide) (by omega))

/-! ## Reading the decimal -/

/-- No finite double has an exponent above the greatest. -/
theorem exponent_le (hfinite : x.magnitude < infiniteMagnitude) : x.exponent ≤ 971 := by
  have hmag := x.magnitude_eq
  have hnorm := x.hiddenBit_le_significand
  unfold infiniteMagnitude at hfinite
  unfold hiddenBit at *
  by_contra hgt
  have := hnorm (by omega)
  omega

/-- A decimal in the interval of a double that is not zero is not zero. -/
theorem digits_pos_of_holds (hpos : 0 < x.magnitude) {d : Decimal} (h : (of x).Holds d.value) : 0 < d.digits := by
  have hvalue : 0 < d.value := lt_of_lt_of_le (lowValue_pos hpos) h.low_le
  unfold Decimal.value at hvalue
  rcases Nat.eq_zero_or_pos d.digits with hzero | hdigits
  · rw [hzero, Nat.cast_zero, zero_mul] at hvalue
    exact absurd hvalue (lt_irrefl 0)
  · exact hdigits

/-- All numbers lie below the power of ten after the largest. -/
theorem largest_lt_ten_zpow : (2 : ℚ) ^ 53 * 2 ^ (971 : Int) < 10 ^ (309 : Int) := by
  have hnat : 2 ^ 53 * 2 ^ 971 < 10 ^ 309 := by decide +kernel
  have hcast : (2 : ℚ) ^ 53 * 2 ^ 971 < 10 ^ 309 := by exact_mod_cast hnat
  exact_mod_cast hcast

/-- All numbers lie above twice the power of ten before the smallest. -/
theorem ten_zpow_lt_smallest : (10 : ℚ) ^ (-324 : Int) < 1 / 2 * 2 ^ (-1074 : Int) := by
  have hnat : 2 * 2 ^ 1074 < 10 ^ 324 := by decide +kernel
  have hcast : (2 : ℚ) * 2 ^ 1074 < 10 ^ 324 := by exact_mod_cast hnat
  have hinv := (inv_lt_inv₀ (by positivity) (by positivity)).mpr hcast
  rw [mul_inv] at hinv
  rw [one_div, zpow_neg, zpow_neg]
  exact_mod_cast hinv

/-- No decimal of the interval has a power of ten beyond the range of numbers. -/
theorem decimal_exponent_le (hfinite : x.magnitude < infiniteMagnitude) {d : Decimal}
    (hdigits : d.digits ≠ 0) (h : (of x).Holds d.value) : d.exponent ≤ 308 := by
  have hm : (x.significand : ℚ) + 1 ≤ 2 ^ 53 := by exact_mod_cast x.significand_lt
  by_contra hgt
  have hvalue : (10 : ℚ) ^ (309 : Int) ≤ d.value := by
    calc (10 : ℚ) ^ (309 : Int) ≤ 10 ^ d.exponent := zpow_le_zpow_right₀ (by norm_num) (by omega)
      _ ≤ d.value := Decimal.ten_zpow_le_value hdigits
  have hhigh : d.value ≤ 2 ^ 53 * 2 ^ (971 : Int) := by
    calc d.value ≤ (x.significand + 1 / 2) * 2 ^ x.exponent := of_highValue x ▸ h.le_high
      _ ≤ 2 ^ 53 * 2 ^ x.exponent := by gcongr; linarith
      _ ≤ 2 ^ 53 * 2 ^ (971 : Int) := by
        gcongr
        · norm_num
        · exact exponent_le hfinite
  exact absurd (le_trans hvalue hhigh) (not_le.mpr largest_lt_ten_zpow)

/-- No decimal of the interval has its leading digit below the smallest number. -/
theorem decimal_leading_ge (hpos : 0 < x.magnitude) {d : Decimal} (h : (of x).Holds d.value) :
    -324 ≤ d.leading := by
  have hm : (1 : ℚ) ≤ x.significand := by exact_mod_cast x.significand_pos hpos
  by_contra hlt
  have hvalue : d.value ≤ 10 ^ (-324 : Int) := by
    calc d.value ≤ 10 ^ (d.leading + 1) := d.value_le_ten_zpow
      _ ≤ 10 ^ (-324 : Int) := zpow_le_zpow_right₀ (by norm_num) (by omega)
  have hlow : 1 / 2 * (2 : ℚ) ^ (-1074 : Int) ≤ d.value := by
    calc 1 / 2 * (2 : ℚ) ^ (-1074 : Int) ≤ 1 / 2 * 2 ^ x.exponent := by
          gcongr
          · norm_num
          · exact x.exponent_ge
      _ ≤ (of x).lowValue := by
        rw [of_lowValue x hpos]
        gcongr
        split_ifs <;> linarith
      _ ≤ d.value := h.low_le
  exact absurd (le_trans hlow hvalue) (not_le.mpr ten_zpow_lt_smallest)

/-- Every decimal in the interval of a positive finite number is read as that number. -/
theorem toDouble_eq_of_holds (hpos : 0 < x.magnitude) (hfinite : x.magnitude < infiniteMagnitude)
    {d : Decimal} (h : (of x).Holds d.value) (negative : Bool) :
    d.toDouble negative = ofMagnitude negative x.magnitude := by
  have hdigits := (digits_pos_of_holds hpos h).ne'
  have hexp := decimal_exponent_le hfinite hdigits h
  have hlead := decimal_leading_ge hpos h
  unfold Decimal.toDouble
  rw [if_neg hdigits, if_neg (by omega), if_neg (by omega)]
  unfold Decimal.value at h
  split_ifs with hsign
  · apply ofRatio_eq_of_holds hpos hfinite negative Nat.one_pos
    rw [ten_zpow_eq_cast hsign] at h
    rw [Nat.cast_one, div_one, Nat.cast_mul]
    exact h
  · apply ofRatio_eq_of_holds hpos hfinite negative (tenPow_pos _)
    rw [ten_zpow_eq_inv hsign, ← div_eq_mul_inv] at h
    exact h

end Double

/-- Writing the zeros out keeps the value. -/
theorem Decimal.value_spread (d : Decimal) : d.spread.value = d.value := by
  unfold Decimal.spread
  split_ifs with hsign
  · unfold Decimal.value
    rw [zpow_zero, mul_one, ten_zpow_eq_cast hsign, Nat.cast_mul]
  · rfl

namespace Double

/-- The plain text of the shortest decimal of a finite number reads back as the number, with the sign
that the reader gives it. -/
theorem toDouble_spread_shortest {x : Double} (hfinite : x.isFinite = true) (tie : Tie)
    (negative : Bool) :
    (x.shortest tie).spread.toDouble negative = ofMagnitude negative x.magnitude := by
  have hlt : x.magnitude < infiniteMagnitude := of_decide_eq_true hfinite
  rcases Nat.eq_zero_or_pos x.magnitude with hzero | hpos
  · have hz : x.isZero = true := decide_eq_true hzero
    unfold shortest
    rw [hz, if_pos rfl, hzero]
    rfl
  · apply toDouble_eq_of_holds hpos hlt
    rw [Decimal.value_spread]
    exact holds_shortest tie hpos

/-- What a query writes for the absolute value of a finite number. -/
def queryDigits (x : Double) : List Char :=
  Layout.query.decimal (x.shortest Layout.query.tie)

/-- A number is written in a query as its shortest decimal in plain layout. -/
theorem queryDigits_eq (x : Double) : x.queryDigits = (x.shortest .up).plain := by
  simp [queryDigits, Layout.decimal, Layout.query]

/-- The digits of a finite number in a query are read back as its absolute value. -/
theorem ofText?_queryDigits {x : Double} (hfinite : x.isFinite = true) :
    ofText? x.queryDigits = some x.abs := by
  obtain ⟨c, rest, hplain, hc⟩ := Decimal.exists_digit_cons_plain (x.shortest .up)
  have hread := Decimal.ofText?_plain (x.shortest .up)
  rw [queryDigits_eq]
  rw [hplain] at hread ⊢
  unfold ofText?
  split
  · rename_i heq
    exact absurd (List.cons.inj heq).1 (ne_of_class hc rfl)
  · rename_i heq
    exact absurd (List.cons.inj heq).1 (ne_of_class hc rfl)
  · rw [hread, Option.map_some, toDouble_spread_shortest hfinite .up false]
    rfl

end Double

end MetricQuery
