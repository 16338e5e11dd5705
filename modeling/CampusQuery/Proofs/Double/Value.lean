import CampusQuery.Proofs.Double.Rounding
/-!
The number that a double is.

Values grow with the places in the total order, and only the zeros share a value. So numbers are
compared by their values, whichever of the comparisons of patterns is used.
-/

namespace CampusQuery.Double

variable {x y : Double}

/-- The number without its sign. -/
def size (x : Double) : ℚ :=
  x.significand * 2 ^ x.exponent

/-- The number that a finite pattern stands for. -/
def value (x : Double) : ℚ :=
  if x.negative then -x.size else x.size

/-! ### Sizes and values grow with the patterns -/

theorem size_nonneg (x : Double) : 0 ≤ x.size :=
  mul_nonneg (Nat.cast_nonneg _) (zpow_nonneg zero_le_two _)

/-- A larger magnitude has more steps on the same grid, or a coarser grid. -/
theorem size_lt_size (h : x.magnitude < y.magnitude) : x.size < y.size := by
  have hx := magnitude_eq x
  have hy := magnitude_eq y
  have hlt := significand_lt x
  have hlt' := significand_lt y
  have hcases := exponent_eq_or_le_significand x
  have hcases' := exponent_eq_or_le_significand y
  rcases lt_or_ge x.exponent y.exponent with hexponent | hexponent
  · have hsignificand : (x.significand : ℚ) < 2 ^ (53 : Int) := by
      norm_num
      exact_mod_cast hlt
    have hsignificand' : (2 : ℚ) ^ (52 : Int) ≤ y.significand := by
      have hle : 0x10000000000000 ≤ y.significand := by omega
      norm_num
      exact_mod_cast hle
    calc x.size < 2 ^ (53 : Int) * 2 ^ x.exponent := by
          unfold size
          gcongr
      _ = 2 ^ (52 : Int) * 2 ^ (x.exponent + 1) := by
          rw [← zpow_add₀ two_ne_zero, ← zpow_add₀ two_ne_zero]
          congr 1
          omega
      _ ≤ y.significand * 2 ^ y.exponent := by
          gcongr
          · exact one_le_two
          · omega
  · have hexponent : x.exponent = y.exponent := by omega
    have hsignificand : x.significand < y.significand := by omega
    unfold size
    rw [hexponent]
    gcongr

theorem size_of_magnitude_eq_zero (h : x.magnitude = 0) : x.size = 0 := by
  have hsignificand : x.significand = 0 := by
    simp [significand, h]
  rw [size, hsignificand, Nat.cast_zero, zero_mul]

theorem size_pos (h : 0 < x.magnitude) : 0 < x.size :=
  (size_nonneg zero).trans_lt (size_lt_size h)

/-- Only the zeros share a place. -/
theorem eq_of_ordinal_eq (h : x.ordinal = y.ordinal) :
    x = y ∨ x.magnitude = 0 ∧ y.magnitude = 0 := by
  unfold ordinal at h
  by_cases hzero : x.magnitude = 0
  · right
    split_ifs at h <;> omega
  · left
    have hmagnitude : x.magnitude = y.magnitude := by
      split_ifs at h <;> omega
    have hnegative : x.negative = y.negative := by
      cases hx : x.negative <;> cases hy : y.negative <;> simp [hx, hy] at h ⊢ <;> omega
    rw [← ofMagnitude_magnitude x, ← ofMagnitude_magnitude y, hmagnitude, hnegative]

theorem value_of_magnitude_eq_zero (h : x.magnitude = 0) : x.value = 0 := by
  rw [value, size_of_magnitude_eq_zero h, neg_zero, ite_self]

theorem value_of_ordinal_eq (h : x.ordinal = y.ordinal) : x.value = y.value := by
  rcases eq_of_ordinal_eq h with rfl | ⟨hx, hy⟩
  · rfl
  · rw [value_of_magnitude_eq_zero hx, value_of_magnitude_eq_zero hy]

theorem value_lt_value (h : x.ordinal < y.ordinal) : x.value < y.value := by
  unfold ordinal at h
  unfold value
  have hx := size_nonneg x
  have hy := size_nonneg y
  split_ifs at h ⊢ with hxsign hysign hysign
  · have hsize : y.size < x.size := size_lt_size (by omega)
    exact neg_lt_neg hsize
  · rcases Nat.eq_zero_or_pos x.magnitude with hzero | hpos
    · have hsize : x.size < y.size := size_lt_size (by omega)
      linarith
    · have hsize := size_pos hpos
      linarith
  · omega
  · exact size_lt_size (by omega)

/-- The order of the places is the order of the values. -/
theorem compare_ordinal (x y : Double) : compare x.ordinal y.ordinal = compare x.value y.value := by
  rcases lt_trichotomy x.ordinal y.ordinal with h | h | h
  · rw [compare_lt_iff_lt.2 h, compare_lt_iff_lt.2 (value_lt_value h)]
  · rw [compare_eq_iff_eq.2 h, compare_eq_iff_eq.2 (value_of_ordinal_eq h)]
  · rw [compare_gt_iff_gt.2 h, compare_gt_iff_gt.2 (value_lt_value h)]

/-! ### Whole numbers -/

theorem size_eq_natCast_iff {m : Nat} : x.size = m ↔ x.fraction.1 = m * x.fraction.2 := by
  obtain ⟨hpos, hvalue⟩ := fraction_eq x
  have hpos' : (x.fraction.2 : ℚ) ≠ 0 := by exact_mod_cast hpos.ne'
  rw [size, ← hvalue, div_eq_iff hpos']
  exact_mod_cast Iff.rfl

theorem abs_value (x : Double) : |x.value| = x.size := by
  unfold value
  split_ifs
  · rw [abs_neg, abs_of_nonneg x.size_nonneg]
  · exact abs_of_nonneg x.size_nonneg

theorem toInt?_eq_some_iff {n : Int} (hx : x.isFinite = true) :
    x.toInt? = some n ↔ x.value = n := by
  have hpos := (fraction_eq x).1
  simp only [toInt?, hx, Bool.true_and, beq_iff_eq, Option.ite_none_right_eq_some,
    Option.some.injEq]
  constructor
  · intro h
    obtain ⟨hmod, rfl⟩ := h
    have hsize : x.size = (x.fraction.1 / x.fraction.2 : Nat) :=
      size_eq_natCast_iff.2 (Nat.div_mul_cancel (Nat.dvd_of_mod_eq_zero hmod)).symm
    rw [value, hsize]
    split_ifs <;> push_cast <;> rfl
  · intro h
    have hsize : x.size = n.natAbs := by
      rw [← abs_value, h, Nat.cast_natAbs, Int.cast_abs]
    have hsign : (if x.negative then -(n.natAbs : Int) else n.natAbs) = n := by
      rw [← Rat.intCast_inj, ← h, value, hsize]
      split_ifs
      · rw [Int.cast_neg, Int.cast_natCast]
      · exact Int.cast_natCast n.natAbs
    rw [size_eq_natCast_iff.1 hsize, Nat.mul_mod_left, Nat.mul_div_cancel _ hpos]
    exact ⟨rfl, hsign⟩

theorem toInt?_of_magnitude_eq_zero (h : x.magnitude = 0) : x.toInt? = some 0 := by
  have hfinite : x.isFinite = true := by
    simp [isFinite, h, infinity]
  rw [toInt?_eq_some_iff hfinite, value_of_magnitude_eq_zero h, Int.cast_zero]

/-- The whole number that a double is determines its place. -/
theorem ordinal_of_toInt? {n : Int} (h : x.toInt? = some n) : x.ordinal = (ofInt n).ordinal := by
  unfold toInt? at h
  simp only [Option.ite_none_right_eq_some, Bool.and_eq_true, beq_iff_eq, Option.some.injEq] at h
  obtain ⟨⟨hfinite, hmod⟩, hn⟩ := h
  have hden := (fraction_eq x).1
  have hx : ofFraction x.negative (x.fraction.1 / x.fraction.2) 1 = x := by
    conv_rhs => rw [← ofFraction_fraction hfinite]
    apply ofFraction_eq_of_mul_eq _ Nat.one_pos hden
    rw [Nat.mul_one, Nat.div_mul_cancel (Nat.dvd_of_mod_eq_zero hmod)]
  generalize x.fraction.1 / x.fraction.2 = size at hn hx
  have hsize : n.natAbs = size := by
    split_ifs at hn <;> omega
  rcases Nat.eq_zero_or_pos size with rfl | hpos
  · have hzero : x.magnitude = 0 := by
      rw [← hx, ofFraction, if_pos rfl, magnitude_ofMagnitude _ (by decide)]
    rw [Int.natAbs_eq_zero.1 hsize, ordinal, hzero]
    simp only [Nat.cast_zero, neg_zero, ite_self]
    decide
  · have hnegative : decide (n < 0) = x.negative := by
      cases hx : x.negative <;> simp [hx] at hn ⊢ <;> omega
    rw [ofInt, hsize, hnegative, hx]

/-- The digits of a number can be moved to the top of a significand. -/
theorem exists_shift {n : Nat} (hpos : 0 < n) (hn : n < 2 ^ 53) :
    ∃ k ≤ 52, 2 ^ 52 ≤ n * 2 ^ k ∧ n * 2 ^ k < 2 ^ 53 := by
  have hlow := Nat.log2_self_le hpos.ne'
  have hhigh := Nat.lt_log2_self (n := n)
  have hlog : n.log2 ≤ 52 := Nat.le_of_lt_succ ((Nat.log2_lt hpos.ne').2 hn)
  obtain ⟨k, hk⟩ := Nat.exists_eq_add_of_le' hlog
  refine ⟨k, by omega, ?_, ?_⟩
  · rw [hk, Nat.pow_add, Nat.mul_comm]
    exact Nat.mul_le_mul_right _ hlow
  · have hsplit : 2 ^ 53 = 2 ^ (n.log2 + 1) * 2 ^ k := by
      rw [← Nat.pow_add]
      congr 1
      omega
    rw [hsplit]
    exact Nat.mul_lt_mul_of_pos_right hhigh (Nat.two_pow_pos k)

/-- The double with a full significand on the grid `2 ^ -k`. -/
theorem exists_value_eq_mul {k steps : Nat} (hk : k ≤ 52) (hlow : 2 ^ 52 ≤ steps)
    (hhigh : steps < 2 ^ 53) :
    ∃ x : Double, x.isFinite = true ∧ x.value = steps * 2 ^ (-(k : Int)) := by
  let x := ofMagnitude false ((1074 - k) * 0x10000000000000 + steps)
  have hmagnitude : x.magnitude = (1074 - k) * 0x10000000000000 + steps :=
    magnitude_ofMagnitude false (by omega)
  have hsignificand : x.significand = steps := by
    simp only [significand, hmagnitude]
    split_ifs <;> omega
  have hexponent : x.exponent = -(k : Int) := by
    simp only [exponent, hmagnitude]
    omega
  have hnegative : x.negative = false := negative_ofMagnitude false (by omega)
  refine ⟨x, ?_, ?_⟩
  · simp only [isFinite, hmagnitude, infinity, decide_eq_true_eq]
    omega
  · rw [value, hnegative, size, hsignificand, hexponent]
    rfl

/-- A number with no more digits than a significand is a double. -/
theorem exists_value_eq {n : Nat} (hn : n < 2 ^ 53) :
    ∃ x : Double, x.isFinite = true ∧ x.value = n := by
  rcases Nat.eq_zero_or_pos n with rfl | hpos
  · exact ⟨zero, by decide, value_of_magnitude_eq_zero (by decide)⟩
  · obtain ⟨k, hk, hlow, hhigh⟩ := exists_shift hpos hn
    obtain ⟨x, hx, hvalue⟩ := exists_value_eq_mul hk hlow hhigh
    refine ⟨x, hx, hvalue.trans ?_⟩
    rw [zpow_neg, zpow_natCast]
    push_cast
    exact mul_inv_cancel_right₀ (by positivity) _

/-- Whole numbers up to `2 ^ 53` are doubles. -/
theorem value_ofInt {n : Nat} (hn : n ≤ 2 ^ 53) : (ofInt n).value = n := by
  rcases hn.lt_or_eq with hlt | rfl
  · obtain ⟨x, hx, hvalue⟩ := exists_value_eq hlt
    have hint : x.toInt? = some n := (toInt?_eq_some_iff hx).2 (by exact_mod_cast hvalue)
    rw [← value_of_ordinal_eq (ordinal_of_toInt? hint), hvalue]
  · have hint : (ofInt (2 ^ 53 : Nat)).toInt? = some (2 ^ 53 : Nat) := by decide +kernel
    exact_mod_cast (toInt?_eq_some_iff (by decide +kernel)).1 hint

end CampusQuery.Double
