import CampusQuery.Proofs.Decimal
import CampusQuery.Proofs.Decimal.Rounding
import CampusQuery.Proofs.Double.Plain
/-!
The rational numbers that decimals stand for.

A double that has few places and is small enough keeps all of them in its decimal, and a decimal is
rounded to two places as its number is.
-/

namespace CampusQuery

namespace Decimal

def value (a : Decimal) : ℚ :=
  a.mantissa / 10 ^ a.scale

theorem value_signed (negative : Bool) (size scale : Nat) :
    (signed negative size scale).value = (if negative then -1 else 1) * (size / 10 ^ scale) := by
  cases negative <;> simp [signed, value, neg_div]

/-! ### Decimals of doubles -/

theorem toNat_sub_lt {c : Char} (hc : c.isDigit = true) : c.toNat - '0'.toNat < 10 := by
  have hdigit : '0' ≤ c ∧ c ≤ '9' := by simpa [Char.isDigit, Char.le_def] using hc
  have hle : c.toNat ≤ '9'.toNat := hdigit.2
  change c.toNat - 48 < 10
  change c.toNat ≤ 57 at hle
  omega

theorem ofDigitChars_lt {digits : List Char} (hdigits : ∀ c ∈ digits, c.isDigit = true) :
    Nat.ofDigitChars 10 digits 0 < 10 ^ digits.length := by
  induction digits with
  | nil => exact Nat.one_pos
  | cons c digits ih =>
    rw [List.forall_mem_cons] at hdigits
    have hrest := ih hdigits.2
    have hdigit := Nat.le_of_lt_succ (toNat_sub_lt hdigits.1)
    rw [Nat.ofDigitChars_cons, Nat.mul_zero, Nat.zero_add, Nat.ofDigitChars_eq_ofDigitChars_zero,
      List.length_cons, Nat.pow_succ]
    nlinarith

theorem foldl_digitValues (digits : List Char) (n : Nat) :
    (digitValues digits).foldl (fun n digit => n * 10 + digit) n =
      Nat.ofDigitChars 10 digits n := by
  simp only [digitValues, List.foldl_map, Nat.ofDigitChars, Nat.mul_comm]

section Digits

variable {q : ℚ} {digits : List Char} {size scale : Nat}

/-- What is there of a number is at most the number. -/
theorem le_of_ofDigitChars
    (h : (Nat.ofDigitChars 10 digits size : ℚ) = q * 10 ^ (scale + digits.length)) :
    (size : ℚ) ≤ q * 10 ^ scale := by
  have hpos : (0 : ℚ) < 10 ^ digits.length := by positivity
  have hle : 10 ^ digits.length * size ≤ Nat.ofDigitChars 10 digits size := by
    rw [Nat.ofDigitChars_eq_ofDigitChars_zero]
    exact Nat.le_add_right _ _
  have hle : ((10 ^ digits.length * size : Nat) : ℚ) ≤ q * 10 ^ (scale + digits.length) := by
    rw [← h]
    exact_mod_cast hle
  rw [pow_add, ← mul_assoc] at hle
  push_cast at hle
  rw [mul_comm] at hle
  exact le_of_mul_le_mul_right hle hpos

/-- Where the places that are there are all that the number has, nothing but zeros is left. -/
theorem eq_of_ofDigitChars (hdigits : ∀ c ∈ digits, c.isDigit = true) (hq : HasPlaces scale q)
    (h : (Nat.ofDigitChars 10 digits size : ℚ) = q * 10 ^ (scale + digits.length)) :
    (size : ℚ) = q * 10 ^ scale ∧ Nat.ofDigitChars 10 digits 0 = 0 := by
  obtain ⟨n, hn⟩ := hq
  have hlt := ofDigitChars_lt hdigits
  rw [Nat.ofDigitChars_eq_ofDigitChars_zero, pow_add, ← mul_assoc, hn] at h
  generalize Nat.ofDigitChars 10 digits 0 = rest at h hlt
  have hrest : (rest : Int) = (n - size) * 10 ^ digits.length := by
    have hcast : (10 ^ digits.length * size + rest : Int) = n * 10 ^ digits.length := by
      exact_mod_cast h
    linarith
  have hzero : n - size = 0 := by
    have hpos : (0 : Int) < 10 ^ digits.length := by positivity
    rw [← Int.mul_ediv_cancel (n - size) hpos.ne', ← hrest]
    exact Int.ediv_eq_zero_of_lt (Int.natCast_nonneg rest) (by exact_mod_cast hlt)
  constructor
  · rw [hn]
    exact_mod_cast (Int.sub_eq_zero.1 hzero).symm
  · rw [hzero, zero_mul] at hrest
    exact_mod_cast hrest

/-- A number keeps all of its places where they fit. -/
theorem withPlaces_exact {places : Nat} (hplaces : places ≤ maxScale) (hq : HasPlaces places q)
    (hlt : q * 10 ^ places < bound) (hdigits : ∀ c ∈ digits, c.isDigit = true)
    (h : (Nat.ofDigitChars 10 digits size : ℚ) = q * 10 ^ (scale + digits.length)) :
    ((withPlaces size scale (digitValues digits)).1 : ℚ) =
      q * 10 ^ (withPlaces size scale (digitValues digits)).2 := by
  induction digits generalizing size scale with
  | nil => exact h
  | cons c digits ih =>
    have hnext : (Nat.ofDigitChars 10 digits (size * 10 + (c.toNat - '0'.toNat)) : ℚ) =
        q * 10 ^ (scale + 1 + digits.length) := by
      rw [Nat.ofDigitChars_cons, Nat.mul_comm] at h
      rw [h, List.length_cons, Nat.add_assoc, Nat.add_comm 1]
    rw [digitValues, List.map_cons, withPlaces]
    by_cases hfits : scale < maxScale ∧ size * 10 + (c.toNat - '0'.toNat) < bound
    · rw [if_pos hfits]
      exact ih (List.forall_mem_cons.1 hdigits).2 hnext
    · -- The next digit could only be refused before the last place by a number that is too large.
      have hscale : places ≤ scale := by
        by_contra hless
        have hle := le_of_ofDigitChars hnext
        have hnonneg : 0 ≤ q :=
          nonneg_of_mul_nonneg_left ((Nat.cast_nonneg _).trans hle) (by positivity)
        have hpow : (10 : ℚ) ^ (scale + 1) ≤ 10 ^ places :=
          pow_le_pow_right₀ (by norm_num) (by omega)
        have hlt' := (hle.trans (mul_le_mul_of_nonneg_left hpow hnonneg)).trans_lt hlt
        exact hfits ⟨by omega, by exact_mod_cast hlt'⟩
      obtain ⟨hsize, hrest⟩ := eq_of_ofDigitChars hdigits (hq.mono hscale) h
      rw [Nat.ofDigitChars_cons, Nat.ofDigitChars_eq_ofDigitChars_zero] at hrest
      have hdigit : c.toNat - '0'.toNat < 5 := by
        have hpos : 0 < 10 ^ digits.length := Nat.pow_pos (by decide)
        have hzero : 10 ^ digits.length * (10 * 0 + (c.toNat - '0'.toNat)) = 0 := by omega
        have hzero := (Nat.mul_eq_zero.1 hzero).resolve_left hpos.ne'
        omega
      rw [if_neg hfits, if_pos hdigit]
      exact hsize

end Digits

/-- A double that has few places and is small enough has its decimal. -/
theorem exists_ofDouble? {x : Double} (hx : x.isFinite = true) {places : Nat}
    (hplaces : places ≤ maxScale) (hvalue : HasPlaces places x.shortestValue)
    (hlt : |x.shortestValue| * 10 ^ places < bound) :
    ∃ a, ofDouble? x = some a ∧ a.value = x.shortestValue := by
  have hdigits := List.forall_mem_append.1 x.isDigit_plainDigits
  have hplain := x.ofDigitChars_plainDigits
  rw [Nat.ofDigitChars_append, ← Nat.zero_add (List.length _)] at hplain
  have hsize : Nat.ofDigitChars 10 x.plainDigits.1 0 < bound := by
    have hle := le_of_ofDigitChars hplain
    have hpow : (1 : ℚ) ≤ 10 ^ places := one_le_pow₀ (by norm_num)
    rw [pow_zero, mul_one] at hle
    have hlt' := (hle.trans (le_mul_of_one_le_right (abs_nonneg _) hpow)).trans_lt hlt
    exact_mod_cast hlt'
  have hexact := withPlaces_exact hplaces hvalue.abs hlt hdigits.2 hplain
  unfold ofDouble?
  simp only [hx, if_true, foldl_digitValues, hsize]
  refine ⟨_, rfl, ?_⟩
  rw [value_signed, hexact, mul_div_cancel_right₀ _ (by positivity), Double.abs_shortestValue]
  rfl

/-! ### Two places -/

/-- The sign and the size of a decimal. -/
theorem value_eq_sign_mul (a : Decimal) :
    a.value = (if decide (a.mantissa < 0) then -1 else 1) * (a.mantissa.natAbs / 10 ^ a.scale) := by
  rw [← value_signed, signed_natAbs]

/-- Decimals are rounded as the numbers that they stand for. -/
theorem value_toCents (a : Decimal) : a.toCents.value = Rounding.toHundredths a.value := by
  unfold toCents
  split_ifs with hscale
  · obtain ⟨n, hn⟩ : HasPlaces 2 a.value :=
      HasPlaces.mono hscale ⟨a.mantissa, div_mul_cancel₀ _ (by positivity)⟩
    have hhundred : a.value * 100 = n := by
      rw [← hn]
      norm_num
    rw [Rounding.toHundredths, hhundred, Rounding.awayFromZero_intCast, ← hhundred]
    ring
  · have hpow : (10 : ℚ) ^ a.scale = 10 ^ (a.scale - 2) * 100 := by
      rw [← pow_sub_mul_pow 10 (show 2 ≤ a.scale by omega)]
      norm_num
    have hpos : 0 < Nat.pow 10 (a.scale - 2) := Nat.pow_pos (by decide)
    have hround : (Rounding.halfUp a.mantissa.natAbs (Nat.pow 10 (a.scale - 2)) : ℚ) =
        round (a.mantissa.natAbs / 10 ^ a.scale * 100 : ℚ) := by
      have hhundred : (a.mantissa.natAbs / 10 ^ a.scale * 100 : ℚ) =
          a.mantissa.natAbs / (Nat.pow 10 (a.scale - 2) : Nat) := by
        rw [hpow, Nat.pow_eq]
        push_cast
        field_simp
      rw [hhundred, ← Rounding.halfUp_eq_round _ hpos, Int.cast_natCast]
    rw [value_eq_sign_mul a, Rounding.toHundredths_mul_sign _ (by positivity), value_signed, hround]
    norm_num

end Decimal

end CampusQuery
