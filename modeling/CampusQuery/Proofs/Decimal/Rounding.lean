import CampusQuery.Proofs.Double.Rounding
import Mathlib.Algebra.BigOperators.Group.List.Basic
import Mathlib.Algebra.Order.Round
/-!
Rounding to two places, once or twice.

A number with at most fifteen places, divided by at most a million, is no nearer to a number halfway
between two hundredths than one in `10 ^ 21`, unless it is that number, which has only three places.
So a quotient with twenty-one places or more has the hundredths of the exact quotient.
-/

namespace CampusQuery

/-- Behind the point the number has at most so many places. -/
def HasPlaces (places : Nat) (q : ℚ) : Prop :=
  ∃ n : Int, q * 10 ^ places = n

namespace HasPlaces

variable {places : Nat} {q q' : ℚ}

theorem mono {places' : Nat} (hle : places ≤ places') (h : HasPlaces places q) :
    HasPlaces places' q := by
  obtain ⟨n, hn⟩ := h
  refine ⟨10 ^ (places' - places) * n, ?_⟩
  rw [← pow_sub_mul_pow 10 hle, mul_left_comm, hn]
  push_cast
  rfl

theorem zero : HasPlaces places 0 :=
  ⟨0, by simp⟩

theorem add (h : HasPlaces places q) (h' : HasPlaces places q') : HasPlaces places (q + q') := by
  obtain ⟨n, hn⟩ := h
  obtain ⟨n', hn'⟩ := h'
  exact ⟨n + n', by rw [add_mul, hn, hn', Int.cast_add]⟩

theorem sum {l : List ℚ} (h : ∀ q ∈ l, HasPlaces places q) : HasPlaces places l.sum :=
  List.sum_induction _ (fun _ _ => add) zero h

theorem abs (h : HasPlaces places q) : HasPlaces places |q| := by
  obtain ⟨n, hn⟩ := h
  rcases abs_choice q with hq | hq
  · exact ⟨n, by rw [hq, hn]⟩
  · exact ⟨-n, by rw [hq, neg_mul, hn, Int.cast_neg]⟩

end HasPlaces

namespace Rounding

/-- The nearest whole number, a half going away from zero. -/
def awayFromZero (q : ℚ) : Int :=
  if q < 0 then -round (-q) else round q

/-- The nearest number with two places, a half going away from zero. -/
def toHundredths (q : ℚ) : ℚ :=
  awayFromZero (q * 100) / 100

theorem awayFromZero_intCast (n : Int) : awayFromZero n = n := by
  unfold awayFromZero
  split_ifs
  · rw [← Int.cast_neg, round_intCast, neg_neg]
  · exact round_intCast n

/-- The sign of a number stays as it is. -/
theorem toHundredths_mul_sign (negative : Bool) {q : ℚ} (hq : 0 ≤ q) :
    toHundredths ((if negative then -1 else 1) * q) =
      (if negative then -1 else 1) * (round (q * 100) / 100) := by
  have hround : ¬ q * 100 < 0 := not_lt.2 (by positivity)
  cases negative with
  | false => simp [toHundredths, awayFromZero, hround]
  | true =>
    rcases hq.eq_or_lt with rfl | hpos
    · simp [toHundredths, awayFromZero]
    · have hneg : -1 * q * 100 < 0 := by linarith
      have habs : -(-1 * q * 100) = q * 100 := by ring
      rw [if_pos rfl, toHundredths, awayFromZero, if_pos hneg, habs, Int.cast_neg, neg_div,
        neg_one_mul]

theorem halfUp_eq_round (num : Nat) {den : Nat} (hden : 0 < den) :
    (halfUp num den : Int) = round (num / den : ℚ) := by
  have hden' : (0 : ℚ) < den := by exact_mod_cast hden
  have hvalue : (num / den : ℚ) = (num / den : Nat) + (num % den : Nat) / den := by
    have hsum : (num : ℚ) = den * (num / den : Nat) + (num % den : Nat) := by
      exact_mod_cast (Nat.div_add_mod num den).symm
    rw [hsum]
    field_simp
  have hnonneg : (0 : ℚ) ≤ (num % den : Nat) / den := by positivity
  have hless : ((num % den : Nat) / den : ℚ) < 1 := by
    rw [div_lt_one hden']
    exact_mod_cast Nat.mod_lt num hden
  have hhalf : 2 * (num % den) < den ↔ ((num % den : Nat) / den : ℚ) < 1 / 2 := by
    rw [div_lt_div_iff₀ hden' two_pos, one_mul, mul_comm]
    exact_mod_cast Iff.rfl
  rw [round_eq, eq_comm, Int.floor_eq_iff, hvalue, Int.cast_natCast, halfUp]
  split_ifs with hlow
  · have hlow := hhalf.1 hlow
    constructor <;> linarith
  · have hhigh := not_lt.1 (mt hhalf.2 hlow)
    rw [Nat.cast_succ]
    constructor <;> linarith

/-! ### Rounding twice -/

/-- Rounding adds at most a half. -/
theorem two_mul_halfEven_le (num den : Nat) :
    2 * (den * halfEven num den) ≤ 2 * num + den := by
  have hsum := Nat.div_add_mod num den
  have hparity := Nat.mod_two_eq_zero_or_one (num / den)
  simp only [halfEven]
  split_ifs with hlow hhigh
  · omega
  · rw [Nat.mul_succ]
    omega
  · rcases hparity with heven | hodd
    · rw [heven, Nat.add_zero]
      omega
    · rw [hodd, Nat.mul_succ]
      omega

section

variable {num den places : Nat} {r : Int}

/-- The hundredths that a quotient reaches it still reaches when it is rounded. -/
theorem le_halfEven_div (hden : 0 < den) (hplaces : 3 ≤ places) (hr : 0 ≤ r)
    (h : (r : ℚ) ≤ num / 10 ^ places / den * 100 + 1 / 2) :
    (r : ℚ) ≤ halfEven num den / 10 ^ places * 100 + 1 / 2 := by
  have hden' : (0 : ℚ) < den := by exact_mod_cast hden
  have hpow : (10 : ℚ) ^ places = 10 ^ (places - 3) * 1000 := by
    rw [← pow_sub_mul_pow 10 hplaces]
    norm_num
  obtain ⟨n, rfl⟩ := Int.eq_ofNat_of_zero_le hr
  cases n with
  | zero =>
    push_cast
    positivity
  | succ n =>
    have hreached : den * ((2 * n + 1) * 5 * 10 ^ (places - 3)) ≤ num := by
      have hquotient : ((2 * n + 1) / 200 : ℚ) ≤ num / (10 ^ places * den) := by
        rw [← div_div]
        push_cast at h
        linarith
      rw [le_div_iff₀ (by positivity), hpow] at hquotient
      have hcast : (den * ((2 * n + 1) * 5 * 10 ^ (places - 3)) : ℚ) ≤ num :=
        calc (den * ((2 * n + 1) * 5 * 10 ^ (places - 3)) : ℚ)
            = (2 * n + 1) / 200 * (10 ^ (places - 3) * 1000 * den) := by ring
          _ ≤ num := hquotient
      exact_mod_cast hcast
    have hle : (((2 * n + 1) * 5 * 10 ^ (places - 3) : Nat) : ℚ) ≤ halfEven num den := by
      exact_mod_cast le_halfEven hden hreached
    have hquotient : ((2 * n + 1) / 200 : ℚ) ≤ halfEven num den / 10 ^ places := by
      rw [le_div_iff₀ (by positivity), hpow]
      push_cast at hle
      linarith
    push_cast
    linarith

/-- The hundredths that a quotient does not reach it does not reach when it is rounded to many
places, if its numerator has few. -/
theorem halfEven_div_lt (hden : 0 < den) (hle : den ≤ 10 ^ 6) (hplaces : 21 ≤ places)
    (hnum : HasPlaces 15 (num / 10 ^ places))
    (h : (num / 10 ^ places / den * 100 + 1 / 2 : ℚ) < r + 1) :
    (halfEven num den / 10 ^ places * 100 + 1 / 2 : ℚ) < r + 1 := by
  have hden' : (0 : ℚ) < den := by exact_mod_cast hden
  have hle' : (den : ℚ) ≤ 10 ^ 6 := by exact_mod_cast hle
  have hpow : (10 : ℚ) ^ 21 ≤ 10 ^ places := pow_le_pow_right₀ (by norm_num) hplaces
  have hpos : (0 : ℚ) < 10 ^ places := by positivity
  have hnear : (2 * (den * halfEven num den) : ℚ) ≤ 2 * num + den := by
    exact_mod_cast two_mul_halfEven_le num den
  have hcancel : (num / 10 ^ places * 10 ^ places : ℚ) = num := div_mul_cancel₀ _ hpos.ne'
  obtain ⟨n, hn⟩ := hnum
  generalize (num / 10 ^ places : ℚ) = q at *
  -- With fifteen places, the numerator is at least one in the last of them below the limit.
  have hgap : q + 1 / 10 ^ 15 ≤ (2 * r + 1) / 200 * den := by
    have hless : q < (2 * r + 1) / 200 * den := by
      rw [← div_lt_iff₀ hden']
      linarith
    have hless' : n < (2 * r + 1) * den * (5 * 10 ^ 12) := by
      have hcast : (n : ℚ) < (2 * r + 1) * den * (5 * 10 ^ 12) := by
        rw [← hn]
        linarith
      exact_mod_cast hcast
    have hsucc : (n + 1 : ℚ) ≤ (2 * r + 1) * den * (5 * 10 ^ 12) := by exact_mod_cast hless'
    rw [← hn] at hsucc
    linarith
  have hscaled := mul_le_mul_of_nonneg_right hgap hpos.le
  have hquotient : (halfEven num den / 10 ^ places : ℚ) < (2 * r + 1) / 200 := by
    rw [div_lt_iff₀ hpos, ← mul_lt_mul_iff_right₀ hden']
    linarith
  linarith

/-- Rounding to many places first does not change the hundredths of a quotient whose numerator has
few places. -/
theorem round_halfEven (hden : 0 < den) (hle : den ≤ 10 ^ 6) (hplaces : 21 ≤ places)
    (hnum : HasPlaces 15 (num / 10 ^ places)) :
    round (halfEven num den / 10 ^ places * 100 : ℚ) =
      round (num / 10 ^ places / den * 100 : ℚ) := by
  rw [round_eq, Int.floor_eq_iff, round_eq]
  constructor
  · exact le_halfEven_div hden (by omega) (Int.floor_nonneg.2 (by positivity)) (Int.floor_le _)
  · exact halfEven_div_lt hden hle hplaces hnum (Int.lt_floor_add_one _)

end

end Rounding

end CampusQuery
