import MetricQuery.Proofs.JsonNumbers
import MetricQuery.Proofs.NearestEven
import MetricQuery.Proofs.QueryPrimaries
import Mathlib.Data.List.DropRight

/-!
# Shortest numerals

What a query writes for a number is a numeral without an exponent that is read as the number again, and no decimal with
fewer digits is: `Double.toQuery_shortest`. So different numbers have different texts.

That no decimal is shorter comes from the search. It goes through the decimal grids from the leading digit of the number
on and stops at the first with a point in the rounding interval. If any point of a grid lies in the interval, so does
one of the two around the number, `RoundingInterval.pick?_isSome_of_holds`; hence the interval has no point of a
coarser grid. A decimal with fewer digits is on a coarser grid, or it lies below the leading digit of the number. Then
the power of ten of that digit is in the interval as well, and the search stops at the first grid.
-/

set_option autoImplicit false

namespace MetricQuery

/-! ## Digits that count -/

/-- Ten times a number has one more zero. -/
theorem digitsOf_ten_mul {n : Nat} (h : 0 < n) : digitsOf (10 * n) = digitsOf n ++ ['0'] := by
  have hlast := Nat.toDigits_append_toDigits (show 1 < 10 by decide) h (show 0 < 10 by decide)
  exact hlast.symm

namespace Decimal

/-- The number of digits of a decimal, without the zeros at either end. -/
def significantDigits (d : Decimal) : Nat :=
  ((digitsOf d.digits).rdropWhile (· = '0')).length

variable {d : Decimal}

/-- Zeros at the end do not count. -/
theorem significantDigits_mul_pow (s j : Nat) (e : Int) (e' : Int) :
    significantDigits ⟨s * 10 ^ j, e⟩ = significantDigits ⟨s, e'⟩ := by
  induction j with
  | zero => rw [pow_zero, mul_one]; rfl
  | succ j ih =>
    rcases Nat.eq_zero_or_pos s with rfl | hs
    · rw [zero_mul]
      rfl
    · rw [← ih]
      unfold significantDigits
      rw [pow_succ, ← mul_assoc, mul_comm, digitsOf_ten_mul (Nat.mul_pos hs (by positivity)),
        List.rdropWhile_concat_pos _ _ _ (by decide)]

/-- Decimals of one value have the same digits. -/
theorem significantDigits_eq_of_value_eq {d d' : Decimal} (h : d.value = d'.value) :
    d.significantDigits = d'.significantDigits := by
  wlog hle : d.exponent ≤ d'.exponent generalizing d d'
  · exact (this h.symm (by omega)).symm
  obtain ⟨j, hj⟩ := Int.eq_ofNat_of_zero_le (show 0 ≤ d'.exponent - d.exponent by omega)
  have hdigits : d.digits = d'.digits * 10 ^ j := by
    have hten : (0 : ℚ) < 10 ^ d.exponent := by positivity
    unfold value at h
    rw [show d'.exponent = (j : Int) + d.exponent by omega, zpow_add₀ (by norm_num), zpow_natCast, ← mul_assoc] at h
    exact_mod_cast mul_right_cancel₀ hten.ne' h
  obtain ⟨s, e⟩ := d
  obtain rfl : s = d'.digits * 10 ^ j := hdigits
  exact significantDigits_mul_pow d'.digits j e d'.exponent

/-- A decimal has no more significant digits than digits. -/
theorem significantDigits_le {n : Nat} (h : d.digits < 10 ^ n) : d.significantDigits ≤ n := by
  cases n with
  | zero =>
    have hzero : d.digits = 0 := by omega
    unfold significantDigits
    rw [hzero]
    decide
  | succ n =>
    calc d.significantDigits ≤ (digitsOf d.digits).length := (List.rdropWhile_prefix _ _).length_le
      _ ≤ n + 1 := (Nat.length_toDigits_le_iff (by decide) (Nat.succ_pos n)).mpr h

/-- A decimal is a number of so many digits, at some power of ten. -/
theorem exists_digits_lt (d : Decimal) :
    ∃ (s : Nat) (k : Int), d.value = s * 10 ^ k ∧ s < 10 ^ d.significantDigits := by
  have hsplit : (digitsOf d.digits).rdropWhile (· = '0') ++ (digitsOf d.digits).rtakeWhile (· = '0') =
      digitsOf d.digits := List.rdropWhile_append_rtakeWhile
  have hzeros : (digitsOf d.digits).rtakeWhile (· = '0') =
      List.replicate ((digitsOf d.digits).rtakeWhile (· = '0')).length '0' :=
    List.eq_replicate_of_mem fun c hc => by simpa using List.mem_rtakeWhile_imp hc
  have hdigits : ∀ c ∈ (digitsOf d.digits).rdropWhile (· = '0'), c.isDigit = true :=
    fun c hc => isDigit_of_mem_digitsOf ((List.rdropWhile_prefix _ _).subset hc)
  rw [hzeros] at hsplit
  have hnumber := congrArg numberOfDigits hsplit
  rw [numberOfDigits_append_zeros, numberOfDigits_digitsOf] at hnumber
  have hcast := congrArg (Nat.cast : Nat → ℚ) hnumber
  rw [Nat.cast_mul, cast_tenPow] at hcast
  refine ⟨_, ((digitsOf d.digits).rtakeWhile (· = '0')).length + d.exponent, ?_, numberOfDigits_lt hdigits⟩
  rw [value, ← hcast, zpow_add₀ (by norm_num), zpow_natCast, mul_assoc]

end Decimal

/-! ## The first grid with a point in the interval -/

namespace RoundingInterval

variable {i : RoundingInterval}

/-- What lies between two values of the interval lies in it. -/
theorem Holds.between {u v w : ℚ} (hu : i.Holds u) (hw : i.Holds w) (huv : u ≤ v) (hvw : v ≤ w) : i.Holds v := by
  unfold Holds at hu hw ⊢
  split at hu
  · rename_i hclosed
    rw [if_pos hclosed] at hw ⊢
    exact ⟨hu.1.trans huv, hvw.trans hw.2⟩
  · rename_i hopen
    rw [if_neg hopen] at hw ⊢
    exact ⟨hu.1.trans_le huv, hvw.trans_lt hw.2⟩

/-- If any point of a grid lies in the interval, one of the two next to the number does. -/
theorem pick?_isSome_of_holds (hden : 0 < i.den) (hmid : i.Holds i.midValue) (tie : Tie) {s : Nat} {k : Int}
    (h : i.Holds (s * 10 ^ k)) : (i.pick? tie k).isSome = true := by
  have hten : (0 : ℚ) < 10 ^ k := by positivity
  obtain ⟨hbelow, habove⟩ := position_spec hden k
  by_contra hnone
  obtain ⟨hleft, hright⟩ := not_holds_of_pick? hden (by simpa using hnone)
  rcases Nat.lt_or_ge (i.position k).1 s with hgt | hle
  · apply hright
    apply hmid.between h habove.le
    apply mul_le_mul_of_nonneg_right _ hten.le
    exact_mod_cast hgt
  · apply hleft
    apply h.between hmid _ hbelow
    apply mul_le_mul_of_nonneg_right _ hten.le
    exact_mod_cast hle

end RoundingInterval

namespace Double

open RoundingInterval

variable {x : Double}

/-- The interval has no point of a grid that the search has passed. -/
theorem not_holds_of_coarser {tie : Tie} (hpos : 0 < x.magnitude) {grid k : Int} (hgrid : (of x).pick? tie grid = none)
    (hk : grid ≤ k) (s : Nat) : ¬ (of x).Holds (s * 10 ^ k) := by
  intro h
  obtain ⟨j, hj⟩ := Int.eq_ofNat_of_zero_le (show 0 ≤ k - grid by omega)
  have hpoint : (s : ℚ) * 10 ^ k = (s * 10 ^ j : Nat) * 10 ^ grid := by
    rw [show k = (j : Int) + grid by omega, zpow_add₀ (by norm_num), zpow_natCast]
    push_cast
    ring
  rw [hpoint] at h
  have hmid := holds_of_lt (lowValue_lt_midValue hpos) (midValue_lt_highValue x)
  have hsome := pick?_isSome_of_holds (of_den_pos x) hmid tie h
  rw [hgrid] at hsome
  cases hsome

/-- The shortest decimal has one digit for each grid that was looked at. -/
theorem significantDigits_shortest_le_of_pick? {tie : Tie} (hpos : 0 < x.magnitude) {first : Nat}
    (hpick : (of x).pick? tie ((of x).decade - first) = some ((of x).search tie 17 (of x).decade).digits) :
    (x.shortest tie).significantDigits ≤ first + 1 := by
  rw [shortest_of_pos tie hpos, Decimal.significantDigits_eq_of_value_eq (Decimal.value_trim 17 _)]
  rcases (le_ten_pow_of_pick? hpos hpick).lt_or_eq with hlt | heq
  · exact Decimal.significantDigits_le hlt
  · -- The next power of ten is a single digit.
    have hone : Decimal.significantDigits ⟨1 * 10 ^ (first + 1), 0⟩ = Decimal.significantDigits ⟨1, 0⟩ :=
      Decimal.significantDigits_mul_pow 1 (first + 1) 0 0
    have hdigits : ((of x).search tie 17 (of x).decade).significantDigits =
        Decimal.significantDigits ⟨1 * 10 ^ (first + 1), 0⟩ := by
      unfold Decimal.significantDigits
      rw [heq, one_mul]
    rw [hdigits, hone]
    exact Nat.succ_le_succ (Nat.zero_le first)

/-- No decimal of the interval has fewer digits than the shortest. -/
theorem significantDigits_shortest_le (tie : Tie) (hpos : 0 < x.magnitude) {d : Decimal} (h : (of x).Holds d.value) :
    (x.shortest tie).significantDigits ≤ d.significantDigits := by
  obtain ⟨first, -, -, hpick, hcoarser⟩ := pick?_search_decade tie hpos
  refine (significantDigits_shortest_le_of_pick? hpos hpick).trans ?_
  by_contra hfewer
  obtain ⟨s, k, hvalue, hs⟩ := d.exists_digits_lt
  have hs' : s < 10 ^ first := hs.trans_le (Nat.pow_le_pow_right (by decide) (by omega))
  rw [hvalue] at h
  cases first with
  | zero =>
    -- Without a single digit there is only zero, which is rounded to zero.
    obtain rfl : s = 0 := by omega
    have hlow := (lowValue_pos hpos).trans_le h.low_le
    rw [Nat.cast_zero, zero_mul] at hlow
    exact absurd hlow (lt_irrefl 0)
  | succ f =>
    have hgrid := hcoarser f (Nat.lt_succ_self f)
    rcases le_or_gt ((of x).decade - f) k with hk | hk
    · exact not_holds_of_coarser hpos hgrid hk s h
    · -- The decimal does not reach the leading digit of the number.
      have hdecade := ten_zpow_decade_le (of_den_pos x) (of_value_pos hpos)
      have hbelow : (s : ℚ) * 10 ^ k ≤ 10 ^ (of x).decade := by
        calc (s : ℚ) * 10 ^ k ≤ 10 ^ ((f + 1 : Nat) : Int) * 10 ^ k := by
              apply mul_le_mul_of_nonneg_right _ (by positivity)
              rw [zpow_natCast]
              exact_mod_cast hs'.le
          _ = 10 ^ (((f + 1 : Nat) : Int) + k) := (zpow_add₀ (by norm_num) _ _).symm
          _ ≤ 10 ^ (of x).decade := zpow_le_zpow_right₀ (by norm_num) (by push_cast; omega)
      have hmid := holds_of_lt (lowValue_lt_midValue hpos) (midValue_lt_highValue x)
      have hpower := h.between hmid hbelow hdecade
      apply not_holds_of_coarser hpos hgrid (show (of x).decade - f ≤ (of x).decade by omega) 1
      rwa [Nat.cast_one, one_mul]

end Double

/-! ## The text -/

/-- A numeral without an exponent and without needless zeros: a zero alone or digits that do not begin with one, and a
fraction, if there is one, that does not end in a zero. -/
inductive PlainNumeral : List Char → Prop
  | whole {ds : List Char} (leads : Leads ds) (digits : ∀ c ∈ ds, c.isDigit = true) : PlainNumeral ds
  | fraction {ds fs : List Char} {last : Char} (leads : Leads ds) (digits : ∀ c ∈ ds, c.isDigit = true)
      (places : ∀ c ∈ fs ++ [last], c.isDigit = true) (ends : last ≠ '0') : PlainNumeral (ds ++ '.' :: (fs ++ [last]))

/-- A plain numeral has no sign. -/
theorem PlainNumeral.head?_ne_minus {text : List Char} (h : PlainNumeral text) : text.head? ≠ some '-' := by
  have hdigit {ds : List Char} (leads : Leads ds) (digits : ∀ c ∈ ds, c.isDigit = true) (rest : List Char) :
      (ds ++ rest).head? ≠ some '-' := by
    obtain ⟨c, cs, rfl⟩ : ∃ c cs, ds = c :: cs := by
      rcases leads with rfl | ⟨c, cs, rfl, -⟩
      · exact ⟨_, _, rfl⟩
      · exact ⟨_, _, rfl⟩
    have hc := digits c List.mem_cons_self
    rw [List.cons_append, List.head?_cons, ne_eq, Option.some_inj]
    exact ne_of_class hc rfl
  cases h with
  | whole leads digits => simpa using hdigit leads digits []
  | fraction leads digits places ends => exact hdigit leads digits _

/-- The digits of a number that is not zero do not begin with a zero. -/
theorem leads_digitsOf {n : Nat} (h : n ≠ 0) (zeros : List Char) : Leads (digitsOf n ++ zeros) := by
  obtain ⟨c, cs, hds⟩ := List.exists_cons_of_ne_nil (digitsOf_ne_nil n)
  rw [hds, List.cons_append]
  exact .inr ⟨c, cs ++ zeros, rfl, ne_zero_of_digitsOf h hds⟩

namespace Decimal

/-- Enough steps drop all final zeros. -/
theorem digits_trim_mod_ten {fuel : Nat} {d : Decimal} (hpos : 0 < d.digits) (h : d.digits ≤ 10 ^ fuel) :
    (d.trim fuel).digits % 10 ≠ 0 := by
  induction fuel generalizing d with
  | zero =>
    rw [pow_zero] at h
    unfold trim
    omega
  | succ fuel ih =>
    rw [pow_succ] at h
    unfold trim
    split
    · apply ih
      · dsimp only
        omega
      · dsimp only
        omega
    · rename_i hkeep
      omega

/-- A decimal without a final zero is written without needless zeros. -/
theorem plainNumeral_plain {d : Decimal} (h : d.digits % 10 ≠ 0) : PlainNumeral d.plain := by
  have hpos : 0 < d.digits := by omega
  rcases plain_cases d with ⟨-, hplain⟩ | ⟨hexp, whole, fraction, hne, hw, hf, hplain, hlen, hnum⟩
  · rw [hplain]
    refine .whole (leads_digitsOf hpos.ne' _) ?_
    exact List.forall_mem_append.mpr ⟨fun _ => isDigit_of_mem_digitsOf, fun _ => isDigit_of_mem_zeros⟩
  · have hleads := leads_of_plain hpos hexp hw hne hplain
    obtain ⟨places, last, rfl⟩ : ∃ places last, fraction = places ++ [last] := by
      rcases List.eq_nil_or_concat' fraction with rfl | hconcat
      · rw [List.length_nil, Nat.cast_zero] at hlen
        omega
      · exact hconcat
    rw [hplain]
    refine .fraction hleads hw hf ?_
    rintro rfl
    -- A zero at the end would be one of the digits.
    rw [← List.append_assoc] at hnum
    have hlast := numberOfDigits_append_zeros (whole ++ places) 1
    rw [List.replicate_one, hnum] at hlast
    apply h
    rw [hlast]
    exact Nat.mul_mod_left _ 10

end Decimal

namespace Double

open RoundingInterval

variable {x : Double}

/-- The digits of a finite number are a plain numeral. -/
theorem plainNumeral_queryDigits (x : Double) : PlainNumeral x.queryDigits := by
  rw [queryDigits_eq]
  rcases Nat.eq_zero_or_pos x.magnitude with hzero | hpos
  · rw [shortest_of_zero .up hzero]
    exact .whole (.inl rfl) (List.forall_mem_singleton.mpr rfl)
  · obtain ⟨first, hfirst, hexp, hpick, -⟩ := pick?_search_decade .up hpos
    have hholds := holds_of_pick? (of_den_pos x) hpick
    apply Decimal.plainNumeral_plain
    rw [shortest_of_pos .up hpos]
    apply Decimal.digits_trim_mod_ten
    · apply digits_pos_of_holds hpos
      rw [Decimal.value, hexp]
      exact hholds
    · exact (le_ten_pow_of_pick? hpos hpick).trans (Nat.pow_le_pow_right (by decide) (by omega))

/-- A finite number is written in a query as its sign and its digits. -/
theorem toQuery_eq_of_isFinite (hfinite : x.isFinite = true) :
    x.toQuery = (if x.isNegative then ['-'] else []) ++ x.queryDigits := by
  have hlt : x.magnitude < infiniteMagnitude := of_decide_eq_true hfinite
  have hnan : x.isNaN = false := decide_eq_false (by omega)
  have hinf : x.isInfinite = false := decide_eq_false (by omega)
  rw [Query.toQuery_eq hnan, Query.unsignedChars, hinf]
  rfl

/-- The text of a finite number is read as the number, bit for bit. -/
theorem ofText?_toQuery (hfinite : x.isFinite = true) : ofText? x.toQuery = some x := by
  have hsame := x.ofMagnitude_isNegative_magnitude
  rw [toQuery_eq_of_isFinite hfinite]
  cases hsign : x.isNegative with
  | false =>
    rw [hsign] at hsame
    exact (ofText?_queryDigits hfinite).trans (congrArg some hsame)
  | true =>
    rw [hsign] at hsame
    have hread : ofText? ('-' :: x.queryDigits) = (Decimal.ofText? x.queryDigits).map (Decimal.toDouble true) := rfl
    change ofText? ('-' :: x.queryDigits) = some x
    rw [hread, queryDigits_eq, Decimal.ofText?_plain, Option.map_some, toDouble_spread_shortest hfinite, hsame]

/-- A double that is neither finite nor no number at all is an infinity. -/
theorem exists_eq_infinity (hnan : x.isNaN = false) (hfinite : x.isFinite = false) :
    ∃ negative, x = infinity negative := by
  have hge : ¬ x.magnitude < infiniteMagnitude := of_decide_eq_false hfinite
  have hle : ¬ infiniteMagnitude < x.magnitude := of_decide_eq_false hnan
  have hmag : x.magnitude = infiniteMagnitude := by omega
  exact ⟨x.isNegative, by rw [infinity, ← hmag, ofMagnitude_isNegative_magnitude]⟩

/-- No decimal is written as an infinity is. -/
theorem ofText?_toQuery_infinity (negative : Bool) : ofText? (infinity negative).toQuery = none := by
  cases negative <;> decide

/-- The two infinities are written differently. -/
theorem toQuery_infinity_inj : ∀ a b : Bool, (infinity a).toQuery = (infinity b).toQuery → a = b := by
  decide

/-- Numbers that are not NaN have different texts. -/
theorem eq_of_toQuery_eq {x y : Double} (hx : x.isNaN = false) (hy : y.isNaN = false) (h : x.toQuery = y.toQuery) :
    x = y := by
  cases hxf : x.isFinite with
  | true =>
    have hread := ofText?_toQuery hxf
    cases hyf : y.isFinite with
    | true =>
      rw [h, ofText?_toQuery hyf] at hread
      exact (Option.some.inj hread).symm
    | false =>
      obtain ⟨b, rfl⟩ := exists_eq_infinity hy hyf
      rw [h, ofText?_toQuery_infinity] at hread
      cases hread
  | false =>
    obtain ⟨a, rfl⟩ := exists_eq_infinity hx hxf
    cases hyf : y.isFinite with
    | true =>
      have hread := ofText?_toQuery hyf
      rw [← h, ofText?_toQuery_infinity] at hread
      cases hread
    | false =>
      obtain ⟨b, rfl⟩ := exists_eq_infinity hy hyf
      rw [toQuery_infinity_inj a b h]

/-- The shortest decimal of a number has the fewest digits of all that are rounded to the number. -/
theorem significantDigits_shortest_le_of_nearestEven (tie : Tie) {d : Decimal} (h : NearestEven d.value x) :
    (x.shortest tie).significantDigits ≤ d.significantDigits := by
  rcases Nat.eq_zero_or_pos x.magnitude with hzero | hpos
  · rw [shortest_of_zero tie hzero]
    exact Nat.zero_le _
  · apply significantDigits_shortest_le tie hpos
    exact ((nearestEven_iff d.value_nonneg h.finite).mp h).holds hpos

/-- What a query writes for a finite number is a plain numeral, with a minus if and only if the number has one. It is
read as the number again, which is the nearest to the decimal that is written, and no decimal of fewer digits has the
number as its nearest. Reading a decimal is finding the nearest number, for all decimals. So numbers other than NaN that
have the same text are the same. -/
theorem toQuery_shortest :
    (∀ x : Double, x.isFinite = true →
      (x.toQuery.head? = some '-' ↔ x.isNegative = true) ∧
      ofText? x.toQuery = some x ∧
      ∃ digits written, x.toQuery = (if x.isNegative then ['-'] else []) ++ digits ∧ PlainNumeral digits ∧
        Decimal.ofText? digits = some written ∧ NearestEven written.value x ∧
        ∀ d : Decimal, NearestEven d.value x → written.significantDigits ≤ d.significantDigits) ∧
    (∀ (d : Decimal) (negative : Bool) (x : Double), x.isFinite = true →
      (d.toDouble negative = x ↔ x.isNegative = negative ∧ NearestEven d.value x)) ∧
    ∀ x y : Double, x.isNaN = false → y.isNaN = false → x.toQuery = y.toQuery → x = y := by
  refine ⟨fun x hfinite => ?_, fun d negative x hfinite => d.toDouble_eq_iff negative hfinite,
    fun x y hx hy h => eq_of_toQuery_eq hx hy h⟩
  have htext := toQuery_eq_of_isFinite hfinite
  have hnumeral := plainNumeral_queryDigits x
  have hread : Decimal.ofText? x.queryDigits = some (x.shortest .up).spread := by
    rw [queryDigits_eq, Decimal.ofText?_plain]
  have hdigits : (x.shortest .up).spread.significantDigits = (x.shortest .up).significantDigits :=
    Decimal.significantDigits_eq_of_value_eq (Decimal.value_spread _)
  have hback : (x.shortest .up).spread.toDouble x.isNegative = x := by
    rw [toDouble_spread_shortest hfinite, ofMagnitude_isNegative_magnitude]
  refine ⟨?_, ofText?_toQuery hfinite, x.queryDigits, _, htext, hnumeral, hread,
    ((Decimal.toDouble_eq_iff _ _ hfinite).mp hback).2, fun d hd => ?_⟩
  · rw [htext]
    cases x.isNegative with
    | true => exact iff_of_true rfl rfl
    | false => exact iff_of_false hnumeral.head?_ne_minus nofun
  · rw [hdigits]
    exact significantDigits_shortest_le_of_nearestEven .up hd

/-- The sum of a tenth and a fifth, as a computation gives it. -/
def threeTenthsOff : Double :=
  ⟨0x3FD3333333333334, by decide⟩

/-- It takes all seventeen digits. -/
theorem toQuery_shortest_threeTenthsOff :
    threeTenthsOff.toQuery = "0.30000000000000004".toList ∧ ofText? "0.30000000000000004".toList = some threeTenthsOff ∧
      ∀ d : Decimal, NearestEven d.value threeTenthsOff → 17 ≤ d.significantDigits := by
  have htext : threeTenthsOff.toQuery = "0.30000000000000004".toList := by decide +kernel
  obtain ⟨-, hread, digits, written, hdigits, -, hwritten, -, hshortest⟩ :=
    toQuery_shortest.1 threeTenthsOff (by decide)
  have hsign : threeTenthsOff.isNegative = false := by decide
  rw [hsign] at hdigits
  obtain rfl : digits = "0.30000000000000004".toList := by
    rw [← htext, hdigits]
    rfl
  obtain rfl : written = ⟨30000000000000004, -17⟩ := by
    have hdecimal : Decimal.ofText? "0.30000000000000004".toList = some ⟨30000000000000004, -17⟩ := by decide
    exact Option.some.inj (hwritten.symm.trans hdecimal)
  refine ⟨htext, htext ▸ hread, fun d hd => ?_⟩
  calc 17 = Decimal.significantDigits ⟨30000000000000004, -17⟩ := by decide
    _ ≤ d.significantDigits := hshortest d hd

end Double

end MetricQuery
