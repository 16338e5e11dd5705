import CampusQuery.Double.Scaled
import CampusQuery.Proofs.Decimal
import CampusQuery.Proofs.Double.Plain
import CampusQuery.Proofs.Double.ReadBack
import CampusQuery.Proofs.Double.Value
/-!
How far a number by way of a power of ten can be from the double nearest to it.

Where the significand and the power of ten are doubles, it is that double. And it never becomes
infinite where the nearest double is below the greatest: products grow with the significand, and for
each power of ten the greatest significand in question stays finite.
-/

namespace CampusQuery.Double

variable {x y : Double}

/-! ### Products and quotients -/

theorem size_le_size (h : x.magnitude ≤ y.magnitude) : x.size ≤ y.size := by
  rcases h.lt_or_eq with hlt | heq
  · exact (size_lt_size hlt).le
  · apply le_of_eq
    simp only [size, significand, exponent, heq]

theorem fraction_mul_le_of_magnitude_le (h : x.magnitude ≤ y.magnitude) :
    x.fraction.1 * y.fraction.2 ≤ y.fraction.1 * x.fraction.2 := by
  obtain ⟨hx, hx'⟩ := fraction_eq x
  obtain ⟨hy, hy'⟩ := fraction_eq y
  have hsize : (x.fraction.1 / x.fraction.2 : ℚ) ≤ y.fraction.1 / y.fraction.2 := by
    rw [hx', hy']
    exact size_le_size h
  rw [div_le_div_iff₀ (by exact_mod_cast hx) (by exact_mod_cast hy)] at hsize
  exact_mod_cast hsize

theorem magnitude_times_mono {x' : Double} (h : x.magnitude ≤ x'.magnitude) (y : Double) :
    (x.times y).magnitude ≤ (x'.times y).magnitude := by
  have hy := (fraction_eq y).1
  refine magnitude_ofFraction_mono _ _ (Nat.mul_pos (fraction_eq x).1 hy)
    (Nat.mul_pos (fraction_eq x').1 hy) ?_
  calc x.fraction.1 * y.fraction.1 * (x'.fraction.2 * y.fraction.2)
      = x.fraction.1 * x'.fraction.2 * (y.fraction.1 * y.fraction.2) := by ac_rfl
    _ ≤ x'.fraction.1 * x.fraction.2 * (y.fraction.1 * y.fraction.2) :=
      Nat.mul_le_mul_right _ (fraction_mul_le_of_magnitude_le h)
    _ = x'.fraction.1 * y.fraction.1 * (x.fraction.2 * y.fraction.2) := by ac_rfl

/-- The number is at most `2 ^ 64`. -/
def IsWord (x : Double) : Prop :=
  x.fraction.1 ≤ x.fraction.2 * 2 ^ 64

theorem isWord_ofFraction {n : Nat} (hn : n < 2 ^ 64) : (ofFraction false n 1).IsWord :=
  fraction_ofFraction_le false Nat.one_pos (by decide) (by omega)

/-- A division by a number from one on does not lead beyond `2 ^ 64`. -/
theorem IsWord.dividedBy (hx : x.IsWord) (hy : y.fraction.2 ≤ y.fraction.1) :
    (x.dividedBy y).isFinite = true ∧ (x.dividedBy y).IsWord := by
  have hden : 0 < x.fraction.2 * y.fraction.1 :=
    Nat.mul_pos (fraction_eq x).1 ((fraction_eq y).1.trans_le hy)
  have hle : x.fraction.1 * y.fraction.2 ≤ x.fraction.2 * y.fraction.1 * 2 ^ 64 :=
    calc x.fraction.1 * y.fraction.2
        ≤ x.fraction.2 * 2 ^ 64 * y.fraction.1 := Nat.mul_le_mul hx hy
      _ = x.fraction.2 * y.fraction.1 * 2 ^ 64 := Nat.mul_right_comm _ _ _
  exact ⟨isFinite_ofFraction false hden (by decide) hle,
    fraction_ofFraction_le false hden (by decide) hle⟩

/-- A product with a number up to `2 ^ k` is not beyond `2 ^ (64 + k)`. -/
theorem IsWord.isFinite_times (hx : x.IsWord) {k : Nat} (hk : 64 + k ≤ 1023)
    (hy : y.fraction.1 ≤ y.fraction.2 * 2 ^ k) : (x.times y).isFinite = true := by
  apply isFinite_ofFraction false (Nat.mul_pos (fraction_eq x).1 (fraction_eq y).1) hk
  calc x.fraction.1 * y.fraction.1
      ≤ x.fraction.2 * 2 ^ 64 * (y.fraction.2 * 2 ^ k) := Nat.mul_le_mul hx hy
    _ = x.fraction.2 * y.fraction.2 * 2 ^ (64 + k) := by
      rw [Nat.pow_add]
      ac_rfl

theorem one_le_tenPower (n : Nat) : (tenPower n).fraction.2 ≤ (tenPower n).fraction.1 := by
  have hone : (ofFraction false 1 1).fraction = (2 ^ 52, 2 ^ 52) := by decide
  have hmagnitude : (ofFraction false 1 1).magnitude ≤ (tenPower n).magnitude :=
    magnitude_ofFraction_mono false false Nat.one_pos Nat.one_pos
      (Nat.mul_le_mul_right 1 (Nat.one_le_pow' n 9))
  have hle := fraction_mul_le_of_magnitude_le hmagnitude
  rw [hone, Nat.mul_comm] at hle
  exact Nat.le_of_mul_le_mul_right hle (by decide)

theorem IsWord.isFinite_lowered (hx : x.IsWord) (n : Nat) : (x.lowered n).isFinite = true := by
  unfold lowered
  split_ifs with hfirst hsecond
  · exact (hx.dividedBy (one_le_tenPower n)).1
  · have hword := (hx.dividedBy (one_le_tenPower 308)).2
    exact (hword.dividedBy (one_le_tenPower (n - 308))).1
  · decide

/-! ### No number below the greatest becomes infinite -/

/-- The magnitude of the greatest double. -/
def greatest : Nat :=
  0x7FEFFFFFFFFFFFFF

/-- The first whole number behind the middle between the greatest double and the one before. -/
def greatestFrom : Nat :=
  2 ^ 1024 - 2 ^ 971 - 2 ^ 970 + 1

theorem greatest_le_magnitude {negative : Bool} {num den : Nat} (hden : 0 < den)
    (h : greatestFrom * den ≤ num) : greatest ≤ (ofFraction negative num den).magnitude := by
  have hmagnitude : (ofFraction false greatestFrom 1).magnitude = greatest := by decide +kernel
  rw [← hmagnitude]
  exact magnitude_ofFraction_mono _ _ Nat.one_pos hden (by omega)

theorem one_le_greatestFrom : 1 ≤ greatestFrom :=
  Nat.le_add_left 1 _

theorem greatestFrom_lt_ten_pow {n : Nat} (hn : 309 ≤ n) : greatestFrom < 10 ^ n := by
  have hlt : greatestFrom < 10 ^ 309 := by decide +kernel
  exact hlt.trans_le (pow_le_pow_right₀ (by decide) hn)

/-- What is not rounded to the greatest double or beyond it is below `greatestFrom`. -/
theorem value_lt_greatestFrom {d : Digits} {negative : Bool}
    (h : (d.toDouble negative).magnitude < greatest) : d.value < greatestFrom := by
  have hone : (1 : ℚ) ≤ greatestFrom := Nat.one_le_cast.2 one_le_greatestFrom
  unfold Digits.toDouble ofDecimal at h
  unfold Digits.value
  simp only at h
  split_ifs at h with hsmall hlarge hexponent
  · rcases eq_or_ne d.digits 0 with hzero | hdigits
    · rw [hzero, Nat.cast_zero, zero_mul]
      linarith
    · have hposition := hsmall.resolve_left hdigits
      have hlt : (d.digits : ℚ) < 10 ^ (decimalLength d.digits : Int) := by
        rw [zpow_natCast]
        exact_mod_cast lt_ten_pow_decimalLength hdigits
      calc (d.digits * 10 ^ d.exponent : ℚ)
          < 10 ^ (decimalLength d.digits : Int) * 10 ^ d.exponent := by gcongr
        _ = 10 ^ (decimalLength d.digits + d.exponent) := (zpow_add₀ (by norm_num) _ _).symm
        _ ≤ 10 ^ (0 : Int) := zpow_le_zpow_right₀ (by norm_num) (by omega)
        _ = 1 := zpow_zero _
        _ ≤ greatestFrom := hone
  · rw [magnitude_ofMagnitude negative (by decide)] at h
    exact absurd h (by decide)
  · obtain ⟨n, hn⟩ := Int.eq_ofNat_of_zero_le hexponent
    rw [hn, zpow_natCast]
    rw [hn, Int.toNat_natCast, Nat.pow_eq] at h
    by_contra hge
    refine absurd h (not_lt.2 (greatest_le_magnitude Nat.one_pos ?_))
    rw [Nat.mul_one]
    exact_mod_cast not_lt.1 hge
  · obtain ⟨n, hn⟩ := Int.eq_ofNat_of_zero_le (show 0 ≤ -d.exponent by omega)
    have heq : d.exponent = -(n : Int) := by omega
    rw [heq, neg_neg, Int.toNat_natCast, Nat.pow_eq] at h
    rw [heq, zpow_neg, zpow_natCast, ← div_eq_mul_inv, div_lt_iff₀ (by positivity)]
    by_contra hge
    refine absurd h (not_lt.2 (greatest_le_magnitude (Nat.pow_pos (by decide)) ?_))
    exact_mod_cast not_lt.1 hge

/-- The greatest significand of sixty-four bits that stays below `greatestFrom` with `10 ^ n`. -/
def greatestSignificand (n : Nat) : Nat :=
  Min.min (2 ^ 64 - 1) ((greatestFrom - 1) / 10 ^ n)

/-- Only the last powers of ten lead close to the greatest double. Here `greatestFrom` is needed: with
`10 ^ 289`, the greatest significand that stays below the greatest double becomes infinite. -/
theorem isFinite_greatestSignificand_times : ∀ k < 20,
    ((ofFraction false (greatestSignificand (289 + k)) 1).times (tenPower (289 + k))).isFinite =
      true := by
  decide +kernel

theorem tenPower_le {n : Nat} (hn : n ≤ 288) :
    (tenPower n).fraction.1 ≤ (tenPower n).fraction.2 * 2 ^ 957 := by
  apply fraction_ofFraction_le false Nat.one_pos (by decide)
  rw [Nat.pow_eq, Nat.one_mul]
  calc 10 ^ n ≤ 10 ^ 288 := Nat.pow_le_pow_right (by decide) hn
    _ ≤ 2 ^ 957 := by decide +kernel

theorem isFinite_of_magnitude_le_magnitude (h : x.magnitude ≤ y.magnitude)
    (hy : y.isFinite = true) : x.isFinite = true :=
  decide_eq_true (h.trans_lt (of_decide_eq_true hy))

theorem isFinite_raised {s n : Nat} (hs : s < 2 ^ 64) (h : s * 10 ^ n < greatestFrom) :
    ((ofFraction false s 1).raised n).isFinite = true := by
  unfold raised
  split_ifs with hn hzero
  · rcases Nat.lt_or_ge 288 n with hlarge | hsmall
    · obtain ⟨k, rfl⟩ := Nat.exists_eq_add_of_le hlarge
      have hle : s ≤ greatestSignificand (289 + k) := by
        refine Nat.le_min.2 ⟨by omega, (Nat.le_div_iff_mul_le (Nat.pow_pos (by decide))).2 ?_⟩
        exact Nat.le_sub_one_of_lt h
      refine isFinite_of_magnitude_le_magnitude (magnitude_times_mono ?_ _)
        (isFinite_greatestSignificand_times k (by omega))
      exact magnitude_ofFraction_mono _ _ Nat.one_pos Nat.one_pos (by omega)
    · exact (isWord_ofFraction hs).isFinite_times (by decide) (tenPower_le hsmall)
  · decide
  · have hne : s ≠ 0 := by
      rintro rfl
      exact hzero (by decide)
    have hpow : 10 ^ n ≤ s * 10 ^ n := Nat.le_mul_of_pos_left _ (Nat.pos_of_ne_zero hne)
    have hten := greatestFrom_lt_ten_pow (n := n) (by omega)
    exact absurd (hpow.trans_lt h) hten.not_gt

theorem magnitude_ofMagnitude_of_isFinite (negative : Bool) (hx : x.isFinite = true) :
    (ofMagnitude negative x.magnitude).magnitude = x.magnitude := by
  have hlt : x.magnitude < infinity := of_decide_eq_true hx
  exact magnitude_ofMagnitude negative (hlt.trans (by decide))

/-- A number that is at most one below the greatest double, as the decimal digits `d` are, does not
become infinite. -/
theorem isFinite_scaled (negative : Bool) {s : UInt64} {p : Int}
    (h : (s.toNat * 10 ^ p : ℚ) < greatestFrom) : (scaled negative s p).isFinite = true := by
  have hfinite : (if 0 ≤ p then (ofFraction false s.toNat 1).raised p.toNat
      else (ofFraction false s.toNat 1).lowered (-p).toNat).isFinite = true := by
    split_ifs with hp
    · obtain ⟨n, rfl⟩ := Int.eq_ofNat_of_zero_le hp
      rw [zpow_natCast] at h
      exact isFinite_raised s.toNat_lt (by exact_mod_cast h)
    · exact (isWord_ofFraction s.toNat_lt).isFinite_lowered _
  have hmagnitude := magnitude_ofMagnitude_of_isFinite negative hfinite
  exact isFinite_of_magnitude_le_magnitude hmagnitude.le hfinite

/-! ### Short numbers -/

/-- A significand of up to fifty-three bits is a double. -/
theorem fraction_ofFraction_natCast {n : Nat} (hn : n ≤ 2 ^ 53) :
    (ofFraction false n 1).fraction.1 = n * (ofFraction false n 1).fraction.2 := by
  have hvalue := value_ofInt hn
  have hint : ofInt n = ofFraction false n 1 := by
    rw [ofInt, Int.natAbs_natCast, decide_eq_false (by omega)]
  rw [← size_eq_natCast_iff, ← hint, ← abs_value, hvalue]
  exact abs_of_nonneg (Nat.cast_nonneg n)

/-- A power of ten up to `10 ^ 22` is a double. -/
theorem fraction_tenPower :
    ∀ n < 23, (tenPower n).fraction.1 = 10 ^ n * (tenPower n).fraction.2 := by
  decide +kernel

theorem ofMagnitude_magnitude_ofFraction (negative : Bool) (num den : Nat) :
    ofMagnitude negative (ofFraction false num den).magnitude = ofFraction negative num den := by
  rcases Nat.eq_zero_or_pos num with rfl | hnum
  · rw [ofFraction, if_pos rfl, magnitude_ofMagnitude false (by decide), ofFraction, if_pos rfl]
  · rw [magnitude_ofFraction_of_pos false hnum, ofFraction_of_pos negative hnum]

/-- A number whose significand and power of ten are doubles becomes the double nearest to it. -/
theorem scaled_eq_ofDecimal (negative : Bool) {s : UInt64} (hs : s.toNat ≤ 2 ^ 53) {p : Int}
    (hlow : -22 ≤ p) (hhigh : p ≤ 22) : scaled negative s p = ofDecimal negative s.toNat p := by
  have hsignificand := fraction_ofFraction_natCast hs
  have hpos := (fraction_eq (ofFraction false s.toNat 1)).1
  have hposition : s.toNat ≠ 0 → decimalLength s.toNat ≤ 16 :=
    fun hne => (decimalLength_le_iff hne).2 (hs.trans_lt (by decide))
  unfold scaled ofDecimal
  rcases Nat.eq_zero_or_pos s.toNat with hzero | hne
  · have hraised : ∀ n < 23, ((ofFraction false 0 1).raised n).magnitude = 0 := by decide +kernel
    have hlowered : ∀ n < 23, ((ofFraction false 0 1).lowered n).magnitude = 0 := by
      decide +kernel
    simp only [hzero, true_or, if_true]
    split_ifs
    · rw [hraised _ (by omega)]
    · rw [hlowered _ (by omega)]
  · have hposition := hposition hne.ne'
    have hsmall : ¬(s.toNat = 0 ∨ (decimalLength s.toNat : Int) + p < -330) := by omega
    have hlarge : ¬310 < (decimalLength s.toNat : Int) + p := by omega
    simp only
    rw [if_neg hsmall, if_neg hlarge]
    split_ifs with hp
    · obtain ⟨n, rfl⟩ := Int.eq_ofNat_of_zero_le hp
      have hpower := fraction_tenPower n (by omega)
      have hpos' := (fraction_eq (tenPower n)).1
      rw [Int.toNat_natCast, raised, if_pos (by omega), times, ofMagnitude_magnitude_ofFraction]
      refine ofFraction_eq_of_mul_eq negative (Nat.mul_pos hpos hpos') Nat.one_pos ?_
      rw [hsignificand, hpower, Nat.mul_one, Nat.pow_eq]
      ac_rfl
    · obtain ⟨n, hn⟩ := Int.eq_ofNat_of_zero_le (show 0 ≤ -p by omega)
      have hpower := fraction_tenPower n (by omega)
      have hpos' := (fraction_eq (tenPower n)).1
      have hten : 0 < (tenPower n).fraction.1 := by
        rw [hpower]
        exact Nat.mul_pos (Nat.pow_pos (by decide)) hpos'
      rw [hn, Int.toNat_natCast, lowered, if_pos (by omega), dividedBy,
        ofMagnitude_magnitude_ofFraction]
      refine ofFraction_eq_of_mul_eq negative (Nat.mul_pos hpos hten) (Nat.pow_pos (by decide)) ?_
      rw [hsignificand, hpower, Nat.pow_eq]
      ac_rfl

end CampusQuery.Double
