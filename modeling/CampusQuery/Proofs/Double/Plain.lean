import CampusQuery.Double.Text
import Mathlib.Algebra.Order.Field.Power
import Mathlib.Algebra.Order.Ring.Abs
import Mathlib.Tactic.Positivity
/-!
The decimal number that a double is written as without an exponent.
-/

namespace CampusQuery

def Digits.value (d : Digits) : ℚ :=
  d.digits * 10 ^ d.exponent

namespace Double

/-- The number of the shortest digits that read back as the finite number `x`, with its sign. -/
def shortestValue (x : Double) : ℚ :=
  (if x.negative then -1 else 1) * if x.magnitude = 0 then 0 else (x.shortest .up).value

theorem abs_shortestValue (x : Double) :
    |x.shortestValue| = if x.magnitude = 0 then 0 else (x.shortest .up).value := by
  have hnonneg : 0 ≤ (x.shortest .up).value := by
    unfold Digits.value
    positivity
  unfold shortestValue
  cases x.negative <;> split_ifs <;> simp [abs_of_nonneg hnonneg]

theorem isDigit_digitsOf {n : Nat} : ∀ c ∈ digitsOf n, c.isDigit = true :=
  fun _ => Nat.isDigit_of_mem_toDigits (by decide) (by decide)

theorem isDigit_replicate_zero {n : Nat} : ∀ c ∈ List.replicate n '0', c.isDigit = true := by
  intro c hc
  rw [List.eq_of_mem_replicate hc]
  rfl

theorem isDigit_positional (d : Digits) :
    ∀ c ∈ (positional d).1 ++ (positional d).2, c.isDigit = true := by
  unfold positional
  simp only
  split_ifs
  · rw [List.append_nil, List.forall_mem_append]
    exact ⟨isDigit_digitsOf, isDigit_replicate_zero⟩
  · rw [List.take_append_drop]
    exact isDigit_digitsOf
  · rw [List.forall_mem_append, List.forall_mem_append]
    exact ⟨isDigit_replicate_zero (n := 1), isDigit_replicate_zero, isDigit_digitsOf⟩

/-- All digits together are the number in units of the last place. -/
theorem ofDigitChars_positional (d : Digits) :
    (Nat.ofDigitChars 10 ((positional d).1 ++ (positional d).2) 0 : ℚ) =
      d.value * 10 ^ (positional d).2.length := by
  have hdigits : Nat.ofDigitChars 10 (digitsOf d.digits) 0 = d.digits :=
    Nat.ofDigitChars_ten_toDigits
  unfold positional Digits.value
  by_cases he : 0 ≤ d.exponent
  · obtain ⟨k, hk⟩ := Int.eq_ofNat_of_zero_le he
    simp only [hk, Int.natCast_nonneg, if_true, Int.toNat_natCast, List.append_nil]
    rw [Nat.ofDigitChars_append, hdigits, Nat.ofDigitChars_replicate_zero]
    simp [mul_comm]
  · obtain ⟨k, hk⟩ := Int.eq_ofNat_of_zero_le (show 0 ≤ -d.exponent by omega)
    have hexponent : d.exponent = -(k : Int) := by omega
    have hcancel : (10 : ℚ) ^ d.exponent * 10 ^ k = 1 := by
      rw [hexponent, zpow_neg, zpow_natCast]
      exact inv_mul_cancel₀ (by positivity)
    rw [if_neg he]
    simp only [hk, Int.toNat_natCast]
    rw [mul_assoc]
    split_ifs with hlt
    · have hlength : ((digitsOf d.digits).drop ((digitsOf d.digits).length - k)).length = k := by
        rw [List.length_drop]
        omega
      rw [List.take_append_drop, hdigits, hlength, hcancel, mul_one]
    · have hlength : (List.replicate (k - (digitsOf d.digits).length) '0' ++
          digitsOf d.digits).length = k := by
        rw [List.length_append, List.length_replicate]
        omega
      have hzero : Nat.ofDigitChars 10 ['0'] 0 = 0 := rfl
      rw [Nat.ofDigitChars_append, Nat.ofDigitChars_append, hzero,
        Nat.ofDigitChars_replicate_zero, Nat.mul_zero, hdigits, hlength, hcancel, mul_one]

theorem isDigit_plainDigits (x : Double) :
    ∀ c ∈ x.plainDigits.1 ++ x.plainDigits.2, c.isDigit = true := by
  unfold plainDigits
  split_ifs
  · simp
  · exact isDigit_positional _

theorem ofDigitChars_plainDigits (x : Double) :
    (Nat.ofDigitChars 10 (x.plainDigits.1 ++ x.plainDigits.2) 0 : ℚ) =
      |x.shortestValue| * 10 ^ x.plainDigits.2.length := by
  rw [abs_shortestValue]
  unfold plainDigits
  split_ifs
  · exact Nat.cast_zero.trans (zero_mul _).symm
  · exact ofDigitChars_positional _

end Double

end CampusQuery
