import CampusQuery.Double.Text
import CampusQuery.Proofs.Double.Rounding
/-!
The digits of a double read back as the double.
-/

namespace CampusQuery.Double

/-! ### Decimal numbers -/

theorem decimalLength_le_iff {n : Nat} (hn : n ≠ 0) {k : Nat} :
    decimalLength n ≤ k ↔ n < 10 ^ k := by
  unfold decimalLength
  rw [if_neg hn]
  rcases Nat.eq_zero_or_pos k with rfl | hk
  · have hpos := Nat.length_toDigits_pos (b := 10) (n := n)
    omega
  · exact Nat.length_toDigits_le_iff (by decide) hk

theorem lt_ten_pow_decimalLength {n : Nat} (hn : n ≠ 0) : n < 10 ^ decimalLength n :=
  (decimalLength_le_iff hn).1 le_rfl

theorem ten_pow_le_of_decimalLength {n : Nat} (hn : n ≠ 0) : 10 ^ (decimalLength n - 1) ≤ n := by
  have hpos : 0 < decimalLength n := by
    by_contra h
    have hlt := (decimalLength_le_iff hn (k := 0)).1 (by omega)
    omega
  by_contra h
  have hle := (decimalLength_le_iff hn (k := decimalLength n - 1)).2 (by omega)
  omega

theorem decimalLength_mul_ten {n : Nat} (hn : n ≠ 0) :
    decimalLength (n * 10) = decimalLength n + 1 := by
  have happend := Nat.toDigits_append_toDigits (b := 10) (n := n) (d := 0) (by decide)
    (Nat.pos_of_ne_zero hn) (by decide)
  rw [Nat.add_zero, Nat.mul_comm] at happend
  unfold decimalLength
  rw [if_neg hn, if_neg (by omega), ← happend, List.length_append, Nat.toDigits_zero]
  rfl

/-- A zero at the end of the digits counts as one in the exponent. -/
theorem ofDecimal_mul_ten (negative : Bool) (digits : Nat) (exponent : Int) :
    ofDecimal negative (digits * 10) (exponent - 1) = ofDecimal negative digits exponent := by
  by_cases hdigits : digits = 0
  · simp [ofDecimal, hdigits]
  have hposition : (decimalLength (digits * 10) : Int) + (exponent - 1) =
      decimalLength digits + exponent := by
    rw [decimalLength_mul_ten hdigits]
    omega
  have hzero : digits * 10 = 0 ↔ digits = 0 := by omega
  have hvalue : (if 0 ≤ exponent - 1 then
        ofFraction negative (digits * 10 * Nat.pow 10 (exponent - 1).toNat) 1
      else ofFraction negative (digits * 10) (Nat.pow 10 (-(exponent - 1)).toNat)) =
      if 0 ≤ exponent then ofFraction negative (digits * Nat.pow 10 exponent.toNat) 1
      else ofFraction negative digits (Nat.pow 10 (-exponent).toNat) := by
    rcases lt_or_ge 0 exponent with hpos | hneg
    · obtain ⟨n, hn⟩ := Int.eq_ofNat_of_zero_le (show 0 ≤ exponent - 1 by omega)
      obtain rfl : exponent = (n + 1 : Nat) := by omega
      rw [if_pos (by omega), if_pos (by omega), hn, Int.toNat_natCast, Int.toNat_natCast]
      simp only [Nat.pow_eq, Nat.pow_succ, Nat.mul_assoc, Nat.mul_comm]
    · obtain ⟨n, hn⟩ := Int.eq_ofNat_of_zero_le (show 0 ≤ -exponent by omega)
      have hn' : (-(exponent - 1)).toNat = n + 1 := by omega
      have hscaled :
          (if 0 ≤ exponent then ofFraction negative (digits * Nat.pow 10 exponent.toNat) 1
            else ofFraction negative digits (Nat.pow 10 (-exponent).toNat)) =
          ofFraction negative digits (10 ^ n) := by
        split_ifs with hzero
        · obtain rfl : exponent = 0 := by omega
          obtain rfl : n = 0 := by omega
          simp
        · rw [hn, Int.toNat_natCast]
          rfl
      rw [if_neg (by omega), hn', hscaled]
      refine ofFraction_eq_of_mul_eq negative (Nat.pow_pos (by decide)) (Nat.pow_pos (by decide)) ?_
      rw [Nat.pow_eq, Nat.pow_succ, Nat.mul_assoc, Nat.mul_comm 10]
  simp only [ofDecimal, hposition, hzero, hvalue]

theorem ofDecimal_mul_ten_pow (negative : Bool) (digits k : Nat) (exponent : Int) :
    ofDecimal negative (digits * 10 ^ k) (exponent - k) = ofDecimal negative digits exponent := by
  induction k with
  | zero => simp
  | succ k ih =>
    rw [Nat.pow_succ, ← Nat.mul_assoc, Nat.cast_succ, ← Int.sub_sub, ofDecimal_mul_ten, ih]

/-- The digits of a finite number, all of them, have its value. -/
theorem allDigits_eq (x : Double) :
    (x.allDigits.digits * 10 ^ x.allDigits.exponent : ℚ) = x.significand * 2 ^ x.exponent := by
  unfold allDigits
  split_ifs with he
  · obtain ⟨n, hn⟩ := Int.eq_ofNat_of_zero_le he
    rw [hn, Int.toNat_natCast, Nat.shiftLeft_eq]
    push_cast
    simp
  · obtain ⟨n, hn⟩ := Int.eq_ofNat_of_zero_le (show 0 ≤ -x.exponent by omega)
    have heq : x.exponent = -(n : Int) := by omega
    have hten : (10 : ℚ) = 5 * 2 := by norm_num
    simp only [heq, neg_neg, Int.toNat_natCast, Nat.pow_eq, zpow_neg, zpow_natCast, hten, mul_pow]
    push_cast
    field_simp

theorem significand_ne_zero {x : Double} (h : x.magnitude ≠ 0) : x.significand ≠ 0 := by
  have hmagnitude := magnitude_eq x
  have hexponent := exponent_eq_or_le_significand x
  omega

theorem two_pow_le_ten_pow : 2 ^ 1074 ≤ 10 ^ 324 := by decide +kernel

theorem two_pow_lt_ten_pow : 2 ^ 1024 < 10 ^ 309 := by decide +kernel

/-- The first digit of a number that is not zero is not after the steps of the least numbers. -/
theorem le_position {x : Double} (hzero : x.magnitude ≠ 0) {d : Digits} (hdigits : d.digits ≠ 0)
    (h : (d.digits * 10 ^ d.exponent : ℚ) = x.significand * 2 ^ x.exponent) :
    -323 ≤ decimalLength d.digits + d.exponent := by
  have hten : (1 : ℚ) < 10 := by norm_num
  have hexponent : -1074 ≤ x.exponent := by
    have hcases := exponent_eq_or_le_significand x
    omega
  have hsmall : (2 ^ 1074 : ℚ) ≤ 10 ^ 324 := by exact_mod_cast two_pow_le_ten_pow
  have hone : (1 : ℚ) ≤ x.significand := by
    exact_mod_cast Nat.one_le_iff_ne_zero.2 (significand_ne_zero hzero)
  have hlt : (d.digits : ℚ) < 10 ^ (decimalLength d.digits : Int) := by
    rw [zpow_natCast]
    exact_mod_cast lt_ten_pow_decimalLength hdigits
  have hlow : (10 : ℚ) ^ (-324 : Int) < 10 ^ (decimalLength d.digits + d.exponent) :=
    calc (10 : ℚ) ^ (-324 : Int) ≤ 2 ^ (-1074 : Int) := by
          rw [zpow_neg, zpow_neg]
          exact inv_anti₀ (by positivity) (by exact_mod_cast hsmall)
      _ ≤ 1 * 2 ^ x.exponent := by
          rw [one_mul]
          exact zpow_le_zpow_right₀ one_le_two hexponent
      _ ≤ x.significand * 2 ^ x.exponent := by gcongr
      _ = d.digits * 10 ^ d.exponent := h.symm
      _ < 10 ^ (decimalLength d.digits : Int) * 10 ^ d.exponent := by gcongr
      _ = 10 ^ (decimalLength d.digits + d.exponent) := (zpow_add₀ (by norm_num) _ _).symm
  have hlt := (zpow_lt_zpow_iff_right₀ hten).1 hlow
  omega

/-- The first digit of a finite number is not before those of the greatest numbers. -/
theorem position_le {x : Double} (hx : x.isFinite = true) {d : Digits} (hdigits : d.digits ≠ 0)
    (h : (d.digits * 10 ^ d.exponent : ℚ) = x.significand * 2 ^ x.exponent) :
    decimalLength d.digits + d.exponent ≤ 310 := by
  have hten : (1 : ℚ) < 10 := by norm_num
  obtain ⟨hpos, hvalue⟩ := fraction_eq x
  have hlarge : (2 ^ 1024 : ℚ) < 10 ^ 309 := by exact_mod_cast two_pow_lt_ten_pow
  have hfraction : x.fraction.1 ≤ x.fraction.2 * 2 ^ 1024 := by
    apply fraction_le_of_magnitude_le
    have hlt : x.magnitude < infinity := of_decide_eq_true hx
    unfold infinity at hlt
    omega
  have hpos' : (0 : ℚ) < x.fraction.2 := by exact_mod_cast hpos
  have hge : (10 : ℚ) ^ ((decimalLength d.digits - 1 : Nat) : Int) ≤ d.digits := by
    rw [zpow_natCast]
    exact_mod_cast ten_pow_le_of_decimalLength hdigits
  have hhigh : (10 : ℚ) ^ ((decimalLength d.digits - 1 : Nat) + d.exponent) < 10 ^ (309 : Int) :=
    calc (10 : ℚ) ^ ((decimalLength d.digits - 1 : Nat) + d.exponent)
        = 10 ^ ((decimalLength d.digits - 1 : Nat) : Int) * 10 ^ d.exponent :=
          zpow_add₀ (by norm_num) _ _
      _ ≤ d.digits * 10 ^ d.exponent := by gcongr
      _ = x.fraction.1 / x.fraction.2 := h.trans hvalue.symm
      _ ≤ 2 ^ 1024 := by
          rw [div_le_iff₀ hpos', mul_comm]
          exact_mod_cast hfraction
      _ < 10 ^ (309 : Int) := by exact_mod_cast hlarge
  have hlt := (zpow_lt_zpow_iff_right₀ hten).1 hhigh
  omega

/-- Digits that have the value of a finite number that is not zero read back as it. -/
theorem toDouble_eq_of_value_eq {x : Double} (hx : x.isFinite = true) (hzero : x.magnitude ≠ 0)
    {d : Digits} (h : (d.digits * 10 ^ d.exponent : ℚ) = x.significand * 2 ^ x.exponent) :
    d.toDouble x.negative = x := by
  have hdigits : d.digits ≠ 0 := by
    intro heq
    have hsignificand : (x.significand : ℚ) ≠ 0 := by exact_mod_cast significand_ne_zero hzero
    have hne : (x.significand * 2 ^ x.exponent : ℚ) ≠ 0 := by positivity
    rw [← h, heq] at hne
    simp at hne
  have hlow := le_position hzero hdigits h
  have hhigh := position_le hx hdigits h
  obtain ⟨hpos, hvalue⟩ := fraction_eq x
  have hpos' : (x.fraction.2 : ℚ) ≠ 0 := by exact_mod_cast hpos.ne'
  rw [← hvalue] at h
  unfold Digits.toDouble ofDecimal
  simp only
  rw [if_neg (by simp [hdigits]; omega), if_neg (by omega)]
  conv_rhs => rw [← ofFraction_fraction hx]
  split_ifs with he
  · obtain ⟨n, hn⟩ := Int.eq_ofNat_of_zero_le he
    rw [hn, zpow_natCast, eq_div_iff hpos'] at h
    rw [hn, Int.toNat_natCast]
    refine ofFraction_eq_of_mul_eq _ Nat.one_pos hpos ?_
    rw [Nat.mul_one]
    exact_mod_cast h
  · obtain ⟨n, hn⟩ := Int.eq_ofNat_of_zero_le (show 0 ≤ -d.exponent by omega)
    have heq : d.exponent = -(n : Int) := by omega
    have hpow : (10 ^ n : ℚ) ≠ 0 := by positivity
    rw [heq, zpow_neg, zpow_natCast, ← div_eq_mul_inv, div_eq_div_iff hpow hpos'] at h
    rw [hn, Int.toNat_natCast]
    refine ofFraction_eq_of_mul_eq _ (Nat.pow_pos (by decide)) hpos ?_
    exact_mod_cast h

theorem toDouble_of_nearest? {tie : Tie} {x : Double} {count : Nat} {d : Digits}
    (h : x.nearest? tie count = some d) : d.toDouble x.negative = x := by
  unfold nearest? at h
  simp only at h
  generalize (if 0 ≤ decimalExponent x.fraction.1 x.fraction.2 + 1 - (count : Int) then
    (_ : Nat × Nat) else _) = scaled at h
  split at h
  · cases h
  · next hbelow _ =>
    cases h
    exact beq_iff_eq.1 hbelow
  · next _ habove =>
    cases h
    exact beq_iff_eq.1 habove
  · next hbelow habove =>
    split_ifs at h
    · cases h
      exact beq_iff_eq.1 hbelow
    · cases h
      exact beq_iff_eq.1 habove

/-- The shortest digits read back. -/
theorem toDouble_shortest (tie : Tie) {x : Double} (hx : x.isFinite = true)
    (hzero : x.magnitude ≠ 0) : (x.shortest tie).toDouble x.negative = x := by
  unfold shortest
  cases h : (List.range 17).findSome? fun n => x.nearest? tie (n + 1) with
  | none => exact toDouble_eq_of_value_eq hx hzero (allDigits_eq x)
  | some d =>
    obtain ⟨n, -, hn⟩ := List.exists_of_findSome?_eq_some h
    exact toDouble_of_nearest? hn

end CampusQuery.Double
