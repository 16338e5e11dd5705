import CampusQuery.Double.Rounding
import Mathlib.Algebra.Order.Field.Power
import Mathlib.Data.Int.Log
import Mathlib.Data.Rat.Floor
import Mathlib.Tactic.Linarith
import Mathlib.Tactic.Positivity
import Mathlib.Tactic.FieldSimp
/-!
Rounding depends on the number that is rounded and not on how it is written.

The quotient `num / den` is looked at as a rational number. Its binary logarithm gives the grid,
and the steps on the grid are bounded by every whole number of steps that bounds the quotient.
The doubles are fixed by rounding and a larger number is not rounded to a smaller double, so
rounding does not lead across a double; powers of two are doubles.
-/

namespace CampusQuery

namespace Rounding

theorem halfEven_mul_left {c : Nat} (hc : 0 < c) (num den : Nat) :
    halfEven (c * num) (c * den) = halfEven num den := by
  have hlt (a b : Nat) : 2 * (c * a) < c * b ↔ 2 * a < b := by
    rw [Nat.mul_left_comm]
    exact Nat.mul_lt_mul_left hc
  have hlt' (a b : Nat) : c * b < 2 * (c * a) ↔ b < 2 * a := by
    rw [Nat.mul_left_comm]
    exact Nat.mul_lt_mul_left hc
  simp only [halfEven, Nat.mul_mod_mul_left, Nat.mul_div_mul_left _ _ hc, hlt, hlt']

theorem halfEven_le {num den m : Nat} (h : num ≤ den * m) : halfEven num den ≤ m := by
  have hfloor : num / den ≤ m := Nat.div_le_of_le_mul h
  have hsum := Nat.div_add_mod num den
  simp only [halfEven]
  rcases hfloor.lt_or_eq with hlt | rfl
  · split_ifs <;> omega
  · have hrest : num % den = 0 := by omega
    split_ifs <;> simp_all

theorem le_halfEven {num den m : Nat} (hden : 0 < den) (h : den * m ≤ num) :
    m ≤ halfEven num den := by
  have hm : m ≤ num / den := (Nat.le_div_iff_mul_le hden).2 (by rwa [Nat.mul_comm])
  simp only [halfEven]
  split_ifs <;> omega

/-- A larger quotient is not rounded to a smaller number. -/
theorem halfEven_mono {num den num' den' : Nat} (hden : 0 < den) (hden' : 0 < den')
    (h : num * den' ≤ num' * den) : halfEven num den ≤ halfEven num' den' := by
  rw [← halfEven_mul_left hden' num den, ← halfEven_mul_left hden num' den',
    Nat.mul_comm den' num, Nat.mul_comm den num', Nat.mul_comm den' den]
  generalize num * den' = a at h ⊢
  generalize num' * den = b at h ⊢
  generalize den * den' = d
  have hfloor : a / d ≤ b / d := Nat.div_le_div_right h
  have ha := Nat.div_add_mod a d
  have hb := Nat.div_add_mod b d
  rcases hfloor.lt_or_eq with hlt | heq
  · simp only [halfEven]
    split_ifs <;> omega
  · rw [← heq] at hb
    simp only [halfEven, ← heq]
    split_ifs <;> omega

theorem halfEven_mul_self {den : Nat} (hden : 0 < den) (m : Nat) : halfEven (den * m) den = m :=
  le_antisymm (halfEven_le le_rfl) (le_halfEven hden le_rfl)

theorem halfEven_le_add_one (num den : Nat) : halfEven num den ≤ num + 1 := by
  have hdiv := Nat.div_le_self num den
  simp only [halfEven]
  split_ifs <;> omega

theorem halfUp_le (num den : Nat) : halfUp num den ≤ num / den + 1 := by
  unfold halfUp
  split_ifs <;> omega

end Rounding

namespace Double

/-- A quotient of `num / den` and a power of two, without fractions. -/
theorem exists_scaled (num den : Nat) (e : Int) : ∃ num' den' : Nat, (0 < den → 0 < den') ∧
    (num' / den' : ℚ) * 2 ^ e = num / den ∧
    (num', den') = if 0 ≤ e then (num, den <<< e.toNat) else (num <<< (-e).toNat, den) := by
  by_cases he : 0 ≤ e
  · obtain ⟨n, rfl⟩ := Int.eq_ofNat_of_zero_le he
    refine ⟨num, den <<< n, fun hden => ?_, ?_, by simp⟩
    · rw [Nat.shiftLeft_eq]
      exact Nat.mul_pos hden (Nat.two_pow_pos n)
    · rw [Nat.shiftLeft_eq, zpow_natCast]
      push_cast
      field_simp
  · obtain ⟨n, hn⟩ := Int.eq_ofNat_of_zero_le (show 0 ≤ -e by omega)
    obtain rfl : e = -(n : Int) := by omega
    refine ⟨num <<< n, den, id, ?_, ?_⟩
    · rw [Nat.shiftLeft_eq, zpow_neg, zpow_natCast]
      push_cast
      field_simp
    · rw [if_neg he, neg_neg, Int.toNat_natCast]

/-- The quotient reaches `2 ^ e` if its logarithm does. -/
theorem reached_iff {num den : Nat} (hnum : 0 < num) (hden : 0 < den) (e : Int) :
    (if 0 ≤ e then den <<< e.toNat ≤ num else den ≤ num <<< (-e).toNat) ↔
      e ≤ Int.log 2 (num / den : ℚ) := by
  obtain ⟨num', den', hden', hquotient, hscaled⟩ := exists_scaled num den e
  have hpos : (0 : ℚ) < num / den := by positivity
  have hden' : (0 : ℚ) < den' := by exact_mod_cast hden' hden
  have hle : den' ≤ num' ↔ e ≤ Int.log 2 (num / den : ℚ) := by
    rw [← Int.zpow_le_iff_le_log Nat.one_lt_two hpos, ← hquotient, Nat.cast_two,
      le_mul_iff_one_le_left (by positivity), one_le_div hden', Nat.cast_le]
  rw [← hle]
  split_ifs at hscaled ⊢ <;> cases hscaled <;> rfl

theorem binaryExponent_eq_log {num den : Nat} (hnum : 0 < num) (hden : 0 < den) :
    binaryExponent num den = Int.log 2 (num / den : ℚ) := by
  have hnum' : (0 : ℚ) < num := by exact_mod_cast hnum
  have hden' : (0 : ℚ) < den := by exact_mod_cast hden
  have hpos : (0 : ℚ) < num / den := div_pos hnum' hden'
  have hlow (n : Nat) (hn : 0 < n) : (2 : ℚ) ^ (n.log2 : Int) ≤ n := by
    rw [zpow_natCast]
    exact_mod_cast Nat.log2_self_le hn.ne'
  have hhigh (n : Nat) : (n : ℚ) < (2 : ℚ) ^ (n.log2 + 1 : Int) := by
    have h := Nat.lt_log2_self (n := n)
    have hcast : (n : ℚ) < (2 : ℚ) ^ (n.log2 + 1) := by exact_mod_cast h
    exact_mod_cast hcast
  have hlower : (num.log2 : Int) - den.log2 - 1 ≤ Int.log 2 (num / den : ℚ) := by
    rw [← Int.zpow_le_iff_le_log Nat.one_lt_two hpos, le_div_iff₀ hden']
    calc ((2 : Nat) : ℚ) ^ ((num.log2 : Int) - den.log2 - 1) * den
        ≤ (2 : ℚ) ^ ((num.log2 : Int) - den.log2 - 1) * 2 ^ (den.log2 + 1 : Int) := by
          have hle := (hhigh den).le
          push_cast
          gcongr
      _ = (2 : ℚ) ^ (num.log2 : Int) := by
          rw [← zpow_add₀ two_ne_zero]
          congr 1
          omega
      _ ≤ num := hlow num hnum
  have hupper : Int.log 2 (num / den : ℚ) < (num.log2 : Int) - den.log2 + 1 := by
    rw [← Int.lt_zpow_iff_log_lt Nat.one_lt_two hpos, div_lt_iff₀ hden']
    calc (num : ℚ) < (2 : ℚ) ^ (num.log2 + 1 : Int) := hhigh num
      _ = (2 : ℚ) ^ ((num.log2 : Int) - den.log2 + 1) * 2 ^ (den.log2 : Int) := by
          rw [← zpow_add₀ two_ne_zero]
          congr 1
          omega
      _ ≤ ((2 : Nat) : ℚ) ^ ((num.log2 : Int) - den.log2 + 1) * den := by
          have hle := hlow den hden
          push_cast
          gcongr
  have hreached := reached_iff hnum hden ((num.log2 : Int) - den.log2)
  simp only [binaryExponent, hreached]
  split_ifs <;> omega

theorem binaryExponent_mul_left {c num den : Nat} (hc : 0 < c) (hnum : 0 < num) (hden : 0 < den) :
    binaryExponent (c * num) (c * den) = binaryExponent num den := by
  rw [binaryExponent_eq_log (Nat.mul_pos hc hnum) (Nat.mul_pos hc hden),
    binaryExponent_eq_log hnum hden]
  have hc' : (c : ℚ) ≠ 0 := by exact_mod_cast hc.ne'
  push_cast
  rw [mul_div_mul_left _ _ hc']

/-! ### The steps on a grid -/

/-- The steps on the grid `2 ^ e` that are nearest to `num / den`. -/
def gridSteps (num den : Nat) (e : Int) : Nat :=
  if 0 ≤ e then Rounding.halfEven num (den <<< e.toNat)
  else Rounding.halfEven (num <<< (-e).toNat) den

theorem gridSteps_mul_left {c : Nat} (hc : 0 < c) (num den : Nat) (e : Int) :
    gridSteps (c * num) (c * den) e = gridSteps num den e := by
  simp only [gridSteps, Nat.shiftLeft_eq, Nat.mul_assoc, Rounding.halfEven_mul_left hc]

/-- The steps are the quotient in units of the grid, rounded to a whole number. -/
theorem exists_gridSteps_eq {num den : Nat} (hden : 0 < den) (e : Int) :
    ∃ num' den' : Nat, 0 < den' ∧ (num' / den' : ℚ) * 2 ^ e = num / den ∧
      gridSteps num den e = Rounding.halfEven num' den' := by
  obtain ⟨num', den', hden', hquotient, hscaled⟩ := exists_scaled num den e
  refine ⟨num', den', hden' hden, hquotient, ?_⟩
  unfold gridSteps
  split_ifs at hscaled ⊢ <;> cases hscaled <;> rfl

theorem gridSteps_le {num den m : Nat} {e : Int} (hden : 0 < den)
    (h : (num / den : ℚ) ≤ m * 2 ^ e) : gridSteps num den e ≤ m := by
  obtain ⟨num', den', hden', hquotient, hsteps⟩ := exists_gridSteps_eq hden e
  rw [hsteps]
  apply Rounding.halfEven_le
  have hden' : (0 : ℚ) < den' := by exact_mod_cast hden'
  rw [← hquotient, mul_le_mul_iff_left₀ (by positivity), div_le_iff₀ hden', mul_comm] at h
  exact_mod_cast h

theorem le_gridSteps {num den m : Nat} {e : Int} (hden : 0 < den)
    (h : (m * 2 ^ e : ℚ) ≤ num / den) : m ≤ gridSteps num den e := by
  obtain ⟨num', den', hden', hquotient, hsteps⟩ := exists_gridSteps_eq hden e
  rw [hsteps]
  apply Rounding.le_halfEven hden'
  have hden' : (0 : ℚ) < den' := by exact_mod_cast hden'
  rw [← hquotient, mul_le_mul_iff_left₀ (by positivity), le_div_iff₀ hden', mul_comm] at h
  exact_mod_cast h

theorem gridSteps_mono {num den num' den' : Nat} (hden : 0 < den) (hden' : 0 < den')
    (h : (num / den : ℚ) ≤ num' / den') (e : Int) : gridSteps num den e ≤ gridSteps num' den' e := by
  obtain ⟨a, b, hb, hquotient, hsteps⟩ := @exists_gridSteps_eq num den hden e
  obtain ⟨a', b', hb', hquotient', hsteps'⟩ := @exists_gridSteps_eq num' den' hden' e
  have hpos : (0 : ℚ) < b := by exact_mod_cast hb
  have hpos' : (0 : ℚ) < b' := by exact_mod_cast hb'
  rw [← hquotient, ← hquotient', mul_le_mul_iff_left₀ (by positivity),
    div_le_div_iff₀ hpos hpos'] at h
  rw [hsteps, hsteps']
  exact Rounding.halfEven_mono hb hb' (by exact_mod_cast h)

theorem ofFraction_of_pos {num den : Nat} (negative : Bool) (hnum : 0 < num) :
    ofFraction negative num den = ofMagnitude negative (Min.min infinity
      ((gridExponent num den + 1074).toNat * 0x10000000000000 +
        gridSteps num den (gridExponent num den))) := by
  unfold ofFraction
  rw [if_neg hnum.ne']
  rfl

/-- Rounding depends on the quotient only. -/
theorem ofFraction_mul_left (negative : Bool) {c num den : Nat} (hc : 0 < c) (hden : 0 < den) :
    ofFraction negative (c * num) (c * den) = ofFraction negative num den := by
  rcases Nat.eq_zero_or_pos num with rfl | hnum
  · simp [ofFraction]
  · rw [ofFraction_of_pos negative (Nat.mul_pos hc hnum), ofFraction_of_pos negative hnum]
    simp only [gridExponent, binaryExponent_mul_left hc hnum hden, gridSteps_mul_left hc]

theorem ofFraction_eq_of_mul_eq (negative : Bool) {num den num' den' : Nat} (hden : 0 < den)
    (hden' : 0 < den') (h : num * den' = num' * den) :
    ofFraction negative num den = ofFraction negative num' den' := by
  rw [← ofFraction_mul_left negative hden' hden, ← ofFraction_mul_left negative hden hden',
    Nat.mul_comm den' num, h, Nat.mul_comm num' den, Nat.mul_comm den' den]

/-! ### Patterns -/

theorem magnitude_ofMagnitude (negative : Bool) {m : Nat} (hm : m < 0x8000000000000000) :
    (ofMagnitude negative m).magnitude = m := by
  unfold ofMagnitude magnitude
  rw [UInt64.toNat_ofNat']
  cases negative <;> simp <;> omega

theorem negative_ofMagnitude (negative : Bool) {m : Nat} (hm : m < 0x8000000000000000) :
    (ofMagnitude negative m).negative = negative := by
  unfold ofMagnitude Double.negative
  rw [UInt64.toNat_ofNat']
  cases negative <;> simp <;> omega

theorem ofMagnitude_magnitude (x : Double) : ofMagnitude x.negative x.magnitude = x := by
  obtain ⟨bits⟩ := x
  simp only [ofMagnitude, Double.negative, magnitude, mk.injEq]
  rw [← UInt64.toNat_inj, UInt64.toNat_ofNat']
  have hbits := bits.toNat_lt
  simp only [decide_eq_true_eq]
  split_ifs <;> omega

/-- The value of a finite number without its sign. -/
theorem fraction_eq (x : Double) :
    0 < x.fraction.2 ∧ (x.fraction.1 / x.fraction.2 : ℚ) = x.significand * 2 ^ x.exponent := by
  unfold fraction
  split_ifs with he
  · obtain ⟨n, hn⟩ := Int.eq_ofNat_of_zero_le he
    rw [hn, Int.toNat_natCast, Nat.shiftLeft_eq, zpow_natCast]
    exact ⟨Nat.one_pos, by push_cast; exact div_one _⟩
  · obtain ⟨n, hn⟩ := Int.eq_ofNat_of_zero_le (show 0 ≤ -x.exponent by omega)
    obtain heq : x.exponent = -(n : Int) := by omega
    rw [heq, neg_neg, Int.toNat_natCast, Nat.shiftLeft_eq, one_mul, zpow_neg, zpow_natCast]
    exact ⟨Nat.two_pow_pos n, by push_cast; exact div_eq_mul_inv _ _⟩

theorem significand_lt (x : Double) : x.significand < 0x20000000000000 := by
  simp only [significand]
  split_ifs <;> omega

/-- The exponent is the finest there is, or the significand has all of its digits. -/
theorem exponent_eq_or_le_significand (x : Double) :
    x.exponent = -1074 ∨ -1074 < x.exponent ∧ 0x10000000000000 ≤ x.significand := by
  simp only [significand, exponent]
  split_ifs <;> omega

/-- The magnitude counts the steps of the grid of `x`, and all steps of finer grids. -/
theorem magnitude_eq (x : Double) :
    x.magnitude = (x.exponent + 1074).toNat * 0x10000000000000 + x.significand := by
  simp only [significand, exponent]
  split_ifs <;> omega

/-- Powers of two are doubles, and magnitudes grow with values. -/
theorem fraction_le_of_magnitude_le {x : Double} {k : Nat}
    (h : x.magnitude ≤ (k + 1023) * 0x10000000000000) :
    x.fraction.1 ≤ x.fraction.2 * 2 ^ k := by
  obtain ⟨hpos, hvalue⟩ := fraction_eq x
  have hpos' : (0 : ℚ) < x.fraction.2 := by exact_mod_cast hpos
  have hle : (x.significand * 2 ^ x.exponent : ℚ) ≤ 2 ^ (k : Int) := by
    have hmagnitude := magnitude_eq x
    have hlt := significand_lt x
    have hcases := exponent_eq_or_le_significand x
    by_cases he : x.exponent ≤ k - 53
    · calc (x.significand * 2 ^ x.exponent : ℚ)
          ≤ 2 ^ (53 : Int) * 2 ^ (k - 53 : Int) := by
            have hsignificand : (x.significand : ℚ) ≤ 2 ^ (53 : Int) := by
              norm_num
              exact_mod_cast hlt.le
            gcongr
            exact one_le_two
        _ = 2 ^ (k : Int) := by
            rw [← zpow_add₀ two_ne_zero]
            congr 1
            omega
    · have hexponent : x.exponent = k - 52 := by omega
      have hsignificand : x.significand = 2 ^ 52 := by omega
      rw [hexponent, hsignificand]
      apply le_of_eq
      calc (((2 ^ 52 : Nat) : ℚ) * 2 ^ (k - 52 : Int)) = 2 ^ (52 : Int) * 2 ^ (k - 52 : Int) := by
            norm_num
        _ = 2 ^ (k : Int) := by
            rw [← zpow_add₀ two_ne_zero]
            congr 1
            omega
  rw [← hvalue, div_le_iff₀ hpos', mul_comm, zpow_natCast] at hle
  exact_mod_cast hle

/-- The grid of a number is the one that its value is rounded on. -/
theorem gridExponent_fraction {x : Double} (hx : 0 < x.fraction.1) :
    gridExponent x.fraction.1 x.fraction.2 = x.exponent := by
  obtain ⟨hpos, hvalue⟩ := fraction_eq x
  have hquotient : (0 : ℚ) < x.fraction.1 / x.fraction.2 := by positivity
  rw [gridExponent, binaryExponent_eq_log hx hpos]
  have hlt : Int.log 2 (x.fraction.1 / x.fraction.2 : ℚ) < 53 + x.exponent := by
    have hsignificand : (x.significand : ℚ) < 2 ^ (53 : Int) := by
      norm_num
      exact_mod_cast significand_lt x
    rw [← Int.lt_zpow_iff_log_lt Nat.one_lt_two hquotient, hvalue, Nat.cast_two,
      zpow_add₀ two_ne_zero]
    gcongr
  rcases exponent_eq_or_le_significand x with hexponent | ⟨hexponent, hle⟩
  · omega
  · have hge : 52 + x.exponent ≤ Int.log 2 (x.fraction.1 / x.fraction.2 : ℚ) := by
      have hsignificand : (2 : ℚ) ^ (52 : Int) ≤ x.significand := by
        norm_num
        exact_mod_cast hle
      rw [← Int.zpow_le_iff_le_log Nat.one_lt_two hquotient, hvalue, Nat.cast_two,
        zpow_add₀ two_ne_zero]
      gcongr
    omega

/-- A finite number is the nearest to itself. -/
theorem ofFraction_fraction {x : Double} (hx : x.isFinite = true) :
    ofFraction x.negative x.fraction.1 x.fraction.2 = x := by
  obtain ⟨hpos, hvalue⟩ := fraction_eq x
  have hmagnitude := magnitude_eq x
  have hfinite : x.magnitude < infinity := of_decide_eq_true hx
  rcases Nat.eq_zero_or_pos x.fraction.1 with hzero | hnum
  · have hsignificand : x.significand = 0 := by
      rw [hzero, Nat.cast_zero, zero_div] at hvalue
      have hne : (2 : ℚ) ^ x.exponent ≠ 0 := zpow_ne_zero _ two_ne_zero
      exact_mod_cast (mul_eq_zero.1 hvalue.symm).resolve_right hne
    have hexponent := exponent_eq_or_le_significand x
    have hzero' : x.magnitude = 0 := by omega
    rw [hzero, ofFraction, if_pos rfl, ← hzero', ofMagnitude_magnitude]
  · have hsteps : gridSteps x.fraction.1 x.fraction.2 x.exponent = x.significand :=
      le_antisymm (gridSteps_le hpos hvalue.le) (le_gridSteps hpos hvalue.ge)
    rw [ofFraction_of_pos _ hnum, gridExponent_fraction hnum, hsteps, ← hmagnitude,
      Nat.min_eq_right hfinite.le, ofMagnitude_magnitude]

/-! ### Rounding keeps the order -/

theorem magnitude_ofFraction_of_pos {num den : Nat} (negative : Bool) (hnum : 0 < num) :
    (ofFraction negative num den).magnitude = Min.min infinity
      ((gridExponent num den + 1074).toNat * 0x10000000000000 +
        gridSteps num den (gridExponent num den)) := by
  rw [ofFraction_of_pos negative hnum, magnitude_ofMagnitude]
  simp only [infinity]
  omega

/-- A larger number has more steps on the same grid, or a coarser grid, on which it has at least
half of the steps that a significand can have. -/
theorem magnitude_ofFraction_mono (negative negative' : Bool) {num den num' den' : Nat}
    (hden : 0 < den) (hden' : 0 < den') (h : num * den' ≤ num' * den) :
    (ofFraction negative num den).magnitude ≤ (ofFraction negative' num' den').magnitude := by
  rcases Nat.eq_zero_or_pos num with rfl | hnum
  · rw [ofFraction, if_pos rfl, magnitude_ofMagnitude negative (by decide)]
    exact Nat.zero_le _
  have hnum' : 0 < num' := Nat.pos_of_mul_pos_right ((Nat.mul_pos hnum hden').trans_le h)
  have hpos : (0 : ℚ) < num / den := by positivity
  have hpos' : (0 : ℚ) < num' / den' := by positivity
  have hle : (num / den : ℚ) ≤ num' / den' := by
    rw [div_le_div_iff₀ (by positivity) (by positivity)]
    exact_mod_cast h
  have hlog := Int.log_mono_right (b := 2) hpos hle
  rw [magnitude_ofFraction_of_pos negative hnum, magnitude_ofFraction_of_pos negative' hnum']
  apply min_le_min_left
  have he : gridExponent num den = Max.max (-1074) (Int.log 2 (num / den : ℚ) - 52) := by
    rw [gridExponent, binaryExponent_eq_log hnum hden]
  have he' : gridExponent num' den' = Max.max (-1074) (Int.log 2 (num' / den' : ℚ) - 52) := by
    rw [gridExponent, binaryExponent_eq_log hnum' hden']
  rcases (show gridExponent num den ≤ gridExponent num' den' by omega).lt_or_eq with hlt | heq
  · have hsteps : gridSteps num den (gridExponent num den) ≤ 2 ^ 53 := by
      apply gridSteps_le hden
      calc (num / den : ℚ) ≤ 2 ^ (Int.log 2 (num / den : ℚ) + 1) := by
            exact_mod_cast (Int.lt_zpow_succ_log_self Nat.one_lt_two (num / den : ℚ)).le
        _ ≤ 2 ^ (53 + gridExponent num den) := zpow_le_zpow_right₀ one_le_two (by omega)
        _ = ((2 ^ 53 : Nat) : ℚ) * 2 ^ gridExponent num den := by
            rw [zpow_add₀ two_ne_zero]
            norm_num
    have hsteps' : 2 ^ 52 ≤ gridSteps num' den' (gridExponent num' den') := by
      apply le_gridSteps hden'
      calc (((2 ^ 52 : Nat) : ℚ) * 2 ^ gridExponent num' den')
          = 2 ^ (52 + gridExponent num' den') := by
            rw [zpow_add₀ two_ne_zero]
            norm_num
        _ ≤ 2 ^ Int.log 2 (num' / den' : ℚ) := zpow_le_zpow_right₀ one_le_two (by omega)
        _ ≤ num' / den' := by
            exact_mod_cast Int.zpow_log_le_self Nat.one_lt_two hpos'
    omega
  · rw [heq]
    exact Nat.add_le_add_left (gridSteps_mono hden hden' hle _) _

/-- Rounding does not lead across a finite double. -/
theorem magnitude_ofFraction_le_magnitude (negative : Bool) {num den : Nat} (hden : 0 < den)
    {x : Double} (hx : x.isFinite = true) (h : num * x.fraction.2 ≤ x.fraction.1 * den) :
    (ofFraction negative num den).magnitude ≤ x.magnitude := by
  conv_rhs => rw [← ofFraction_fraction hx]
  exact magnitude_ofFraction_mono negative x.negative hden (fraction_eq x).1 h

theorem magnitude_ofFraction_le (negative : Bool) {num den k : Nat} (hden : 0 < den) (hk : k ≤ 1023)
    (h : num ≤ den * 2 ^ k) :
    (ofFraction negative num den).magnitude ≤ (k + 1023) * 0x10000000000000 := by
  let x := ofMagnitude false ((k + 1023) * 0x10000000000000)
  have hmagnitude : x.magnitude = (k + 1023) * 0x10000000000000 :=
    magnitude_ofMagnitude false (by omega)
  have hsignificand : x.significand = 2 ^ 52 := by
    simp only [significand, hmagnitude]
    split_ifs <;> omega
  have hexponent : x.exponent = k - 52 := by
    simp only [exponent, hmagnitude]
    omega
  have hfinite : x.isFinite = true := by
    simp only [isFinite, hmagnitude, infinity, decide_eq_true_eq]
    omega
  obtain ⟨hpos, hvalue⟩ := fraction_eq x
  have hpos' : (x.fraction.2 : ℚ) ≠ 0 := by exact_mod_cast hpos.ne'
  have hfraction : x.fraction.1 = 2 ^ k * x.fraction.2 := by
    have hpower : (x.fraction.1 / x.fraction.2 : ℚ) = 2 ^ (k : Int) := by
      rw [hvalue, hsignificand, hexponent, zpow_sub₀ two_ne_zero, Nat.cast_pow, Nat.cast_two]
      exact mul_div_cancel₀ _ (by positivity)
    rw [div_eq_iff hpos', zpow_natCast] at hpower
    exact_mod_cast hpower
  rw [← hmagnitude]
  apply magnitude_ofFraction_le_magnitude negative hden hfinite
  rw [hfraction, Nat.mul_right_comm]
  exact Nat.mul_le_mul_right _ (by rwa [Nat.mul_comm])

end Double

end CampusQuery
