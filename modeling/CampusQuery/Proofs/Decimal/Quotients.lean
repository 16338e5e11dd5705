import CampusQuery.Proofs.Decimal.Totals
/-!
Averages are rounded as if their quotients were exact.

A division adds places to a quotient until it is exact or there is no room, and for a mean below ten
thousand there is room for at least twenty-one places. So the rounding of the last place is never
what decides about the hundredths.
-/

namespace CampusQuery

namespace Decimal

/-! ### Places of quotients -/

/-- The number of a size and a count of places. -/
def unsignedValue (p : Nat × Nat) : ℚ :=
  p.1 / 10 ^ p.2

theorem unsignedValue_dropZeros (count : Nat) (p : Nat × Nat) :
    unsignedValue (dropZeros count p) = unsignedValue p := by
  obtain ⟨size, scale⟩ := p
  unfold dropZeros
  simp only
  split_ifs with h
  · obtain ⟨hle, hzeros⟩ := h
    obtain ⟨m, rfl⟩ := Nat.dvd_of_mod_eq_zero hzeros
    simp only [unsignedValue, Nat.pow_eq]
    rw [Nat.mul_div_cancel_left m (Nat.pow_pos (by decide)), ← pow_sub_mul_pow 10 hle]
    push_cast
    field_simp
  · rfl

theorem unsignedValue_dropEightZeros (p : Nat × Nat) :
    unsignedValue (dropEightZeros p) = unsignedValue p := by
  obtain ⟨size, scale⟩ := p
  unfold dropEightZeros
  simp only
  split_ifs
  · exact unsignedValue_dropZeros 8 _
  · rfl

theorem value_signed_trimmed (negative : Bool) (size scale : Nat) :
    (signed negative (trimmed size scale).1 (trimmed size scale).2).value =
      (if negative then -1 else 1) * (size / 10 ^ scale) := by
  have htrimmed : unsignedValue (trimmed size scale) = size / 10 ^ scale := by
    simp only [trimmed, unsignedValue_dropZeros, unsignedValue_dropEightZeros]
    rfl
  rw [value_signed, ← htrimmed, unsignedValue]

/-- There is no room only where one more place does not fit. -/
theorem room_eq_zero {size scale : Nat} (h : room size scale = 0) :
    maxScale ≤ scale ∨ bound ≤ size * 10 := by
  by_contra hfits
  have hcounts : (List.range 10).reverse = [9, 8, 7, 6, 5, 4, 3, 2] ++ [1, 0] := rfl
  rw [room, hcounts, List.find?_append] at h
  cases hfind : [9, 8, 7, 6, 5, 4, 3, 2].find? fun n =>
      decide (scale + n ≤ maxScale ∧ size * Nat.pow 10 n < bound) with
  | some n =>
    have hmem := List.mem_of_find?_eq_some hfind
    rw [hfind, Option.some_or, Option.getD_some] at h
    simp [h] at hmem
  | none =>
    have hone : scale + 1 ≤ maxScale ∧ size * Nat.pow 10 1 < bound := by
      simp only [Nat.pow_eq, Nat.pow_one]
      omega
    rw [hfind, Option.none_or, List.find?_cons_of_pos (by simpa using hone)] at h
    cases h

/-- Places are added until the quotient is exact or there is no room. -/
theorem quotientPlaces_cases (size scale n fuel added : Nat) :
    let places := quotientPlaces size scale n fuel added
    size * Nat.pow 10 places % n = 0 ∨
      room (size * Nat.pow 10 places / n) (scale + places) = 0 ∨ added + fuel ≤ places := by
  induction fuel generalizing added with
  | zero => exact .inr (.inr le_rfl)
  | succ fuel ih =>
    unfold quotientPlaces
    simp only
    split_ifs with hdone
    · exact hdone.imp_right .inl
    · refine (ih _).imp_right (Or.imp_right fun hle => ?_)
      have hmore := Nat.pos_of_ne_zero (not_or.1 hdone).2
      omega

theorem le_of_bound_le_pow {k : Nat} (h : bound ≤ 10 ^ k) : 29 ≤ k := by
  by_contra hless
  have hpow : 10 ^ k ≤ 10 ^ 28 := Nat.pow_le_pow_right (by decide) (by omega)
  have hlt : 10 ^ 28 < bound := by decide
  omega

section

variable {size scale n : Nat}

/-- The places of a quotient that is not too large are as many as it needs, or many. -/
theorem quotientPlaces_many (hle : size ≤ n * (10 ^ 4 * 10 ^ scale)) :
    let places := quotientPlaces size scale n maxScale 0
    n ∣ size * 10 ^ places ∨ 21 ≤ scale + places := by
  intro places
  rcases quotientPlaces_cases size scale n maxScale 0 with hexact | hroom | hfuel
  · exact .inl (Nat.dvd_of_mod_eq_zero hexact)
  · refine .inr ?_
    rcases room_eq_zero hroom with hscale | hbound
    · exact le_trans (by decide) hscale
    · have hquotient : size * 10 ^ places / n ≤ 10 ^ 4 * 10 ^ scale * 10 ^ places := by
        apply Nat.div_le_of_le_mul
        rw [← Nat.mul_assoc]
        exact Nat.mul_le_mul_right _ hle
      have hpow : bound ≤ 10 ^ (4 + scale + places + 1) := by
        rw [Nat.pow_succ, Nat.pow_add, Nat.pow_add]
        exact hbound.trans (Nat.mul_le_mul_right 10 hquotient)
      have hmany := le_of_bound_le_pow hpow
      omega
  · refine .inr ?_
    have hmany : 0 + 28 ≤ places := hfuel
    omega

/-- A quotient that is rounded up to where it does not fit has many places, also without the last
one. -/
theorem many_of_bound_le {places : Nat} (hle : size ≤ n * (10 ^ 4 * 10 ^ scale))
    (h : bound ≤ Rounding.halfEven (size * 10 ^ places) n) : 21 ≤ scale + (places - 1) := by
  have hquotient : Rounding.halfEven (size * 10 ^ places) n ≤ 10 ^ (4 + scale + places) := by
    apply Rounding.halfEven_le
    rw [Nat.pow_add, Nat.pow_add, ← Nat.mul_assoc]
    exact Nat.mul_le_mul_right _ hle
  have hmany := le_of_bound_le_pow (h.trans hquotient)
  omega

end

theorem abs_value (a : Decimal) : |a.value| = a.mantissa.natAbs / 10 ^ a.scale := by
  have hnonneg : (0 : ℚ) ≤ a.mantissa.natAbs / 10 ^ a.scale := by positivity
  rw [value_eq_sign_mul a, abs_mul, abs_of_nonneg hnonneg]
  split_ifs <;> simp

/-- A quotient that is not too large is exact, or it is rounded to at least twenty-one places. -/
theorem value_divide {a : Decimal} {n : Nat} (hn : 0 < n) (hle : |a.value| ≤ n * 10 ^ 4) :
    ∃ places, (n ∣ a.mantissa.natAbs * 10 ^ places ∨ 21 ≤ a.scale + places) ∧
      (a.divide n).value = (if decide (a.mantissa < 0) then -1 else 1) *
        (Rounding.halfEven (a.mantissa.natAbs * 10 ^ places) n / 10 ^ (a.scale + places)) := by
  have hsize : a.mantissa.natAbs ≤ n * (10 ^ 4 * 10 ^ a.scale) := by
    rw [abs_value, div_le_iff₀ (by positivity), mul_assoc] at hle
    exact_mod_cast hle
  unfold divide
  simp only [Nat.pow_eq]
  by_cases hexact : a.mantissa.natAbs % n = 0
  · obtain ⟨m, hm⟩ := Nat.dvd_of_mod_eq_zero hexact
    refine ⟨0, .inl (by simp [hm]), ?_⟩
    rw [if_pos hexact, value_signed, Nat.pow_zero, Nat.mul_one, hm, Rounding.halfEven_mul_self hn,
      Nat.mul_div_cancel_left m hn, Nat.add_zero]
  · rw [if_neg hexact, value_signed_trimmed]
    refine ⟨_, ?_, rfl⟩
    split_ifs with hfits
    · exact quotientPlaces_many hsize
    · exact .inr (many_of_bound_le hsize (not_lt.1 hfits))

/-- The hundredths of a quotient are those of the exact quotient. -/
theorem value_toCents_divide {a : Decimal} {n : Nat} (hn : 0 < n) (hlength : n ≤ 10 ^ 6)
    (ha : HasPlaces 15 a.value) (hle : |a.value| ≤ n * 10 ^ 4) :
    (a.divide n).toCents.value = Rounding.toHundredths (a.value / n) := by
  obtain ⟨places, hplaces, hvalue⟩ := value_divide hn hle
  have hsize : |a.value| =
      (a.mantissa.natAbs * 10 ^ places : Nat) / 10 ^ (a.scale + places) := by
    rw [abs_value, pow_add]
    push_cast
    field_simp
  have hround : round (Rounding.halfEven (a.mantissa.natAbs * 10 ^ places) n /
      10 ^ (a.scale + places) * 100 : ℚ) = round (|a.value| / n * 100) := by
    rw [hsize]
    rcases hplaces with ⟨m, hm⟩ | hmany
    · have hn' : (n : ℚ) ≠ 0 := by exact_mod_cast hn.ne'
      rw [hm, Rounding.halfEven_mul_self hn]
      push_cast
      congr 2
      field_simp
    · exact Rounding.round_halfEven hn hlength hmany (hsize ▸ ha.abs)
  have hsign := value_eq_sign_mul a
  rw [← abs_value] at hsign
  rw [value_toCents, hvalue, Rounding.toHundredths_mul_sign _ (by positivity), hround]
  conv_rhs => rw [hsign, mul_div_assoc, Rounding.toHundredths_mul_sign _ (by positivity)]

end Decimal

namespace Aggregate

/-- Averages are exact. Where the shortest decimals of the numbers of a group, not more than a
million, have at most fifteen places and are below ten thousand, AVG is their mean, rounded once. -/
theorem value_avg_exact {rule : ApplyRule} (hrule : rule.aggregate = .avg) {members : List Record}
    (hne : members ≠ []) (hlength : members.length ≤ 10 ^ 6)
    (hnumbers : ∀ x ∈ members.filterMap (·.number? rule.field),
      x.isFinite = true ∧ HasPlaces 15 x.shortestValue ∧ |x.shortestValue| < 10 ^ 4) :
    ∃ sum, exactSum (members.filterMap (·.number? rule.field)) = .ok sum ∧
      value rule members = .ok (sum.divide members.length).toCents.toDouble ∧
      (sum.divide members.length).toCents.value = Rounding.toHundredths
        (((members.filterMap (·.number? rule.field)).map Double.shortestValue).sum /
          members.length) := by
  have hcount : ((members.filterMap (·.number? rule.field)).length : ℚ) ≤ members.length := by
    exact_mod_cast List.length_filterMap_le _ _
  have hlength' : (members.length : ℚ) ≤ 10 ^ 6 := by exact_mod_cast hlength
  have hempty : members.isEmpty = false := List.isEmpty_eq_false_iff.2 hne
  simp only [value, hrule]
  generalize members.filterMap (·.number? rule.field) = numbers at *
  have hsize : (numbers.map fun x => |x.shortestValue|).sum ≤ members.length * 10 ^ 4 := by
    have hle := List.sum_le_card_nsmul (numbers.map fun x => |x.shortestValue|) (10 ^ 4)
      (List.forall_mem_map.2 fun x hx => (hnumbers x hx).2.2.le)
    rw [List.length_map, nsmul_eq_mul] at hle
    linarith
  have habs : |(numbers.map Double.shortestValue).sum| ≤ members.length * 10 ^ 4 := by
    have hle := List.le_sum_of_subadditive (fun q : ℚ => |q|) abs_zero.le abs_add_le
      (numbers.map Double.shortestValue)
    rw [List.map_map] at hle
    exact hle.trans hsize
  have hbound : (10 ^ 25 : ℚ) < Decimal.bound := by norm_num [Decimal.bound]
  obtain ⟨sum, hsum, hvalue⟩ := exists_exactSum (by decide) (fun x hx => (hnumbers x hx).1)
    (fun x hx => (hnumbers x hx).2.1) (by linarith)
  refine ⟨sum, hsum, ?_, ?_⟩
  · simp only [hsum, hempty]
    rfl
  · rw [← hvalue] at habs ⊢
    refine Decimal.value_toCents_divide (List.length_pos_iff.2 hne) hlength ?_ habs
    rw [hvalue]
    exact .sum (List.forall_mem_map.2 fun x hx => (hnumbers x hx).2.1)

/-- A mean of `-0.015`. -/
theorem value_avg_exact_of_negative_half :
    let taught (avg : Double) : Record :=
      .ofSection ⟨"cpsc", "", "", "", "", .zero, avg, .zero, .zero, .zero⟩
    let members := [taught (.ofDecimal true 1 (-2)), taught (.ofDecimal true 2 (-2)),
      taught (.ofDecimal true 15 (-3))]
    ∃ sum : Decimal, value ⟨"a", .avg, .avg⟩ members = .ok (sum.divide 3).toCents.toDouble ∧
      (sum.divide 3).toCents.value = -0.02 := by
  intro taught members
  have hvalues : (members.filterMap (·.number? .avg)).map Double.shortestValue =
      [-0.01, -0.02, -0.015] := by
    decide +kernel
  have hfinite : ∀ x ∈ members.filterMap (·.number? .avg), x.isFinite = true := by decide +kernel
  have hsmall : ∀ x ∈ members.filterMap (·.number? .avg),
      HasPlaces 15 x.shortestValue ∧ |x.shortestValue| < 10 ^ 4 := by
    rw [← List.forall_mem_map (f := Double.shortestValue)
      (P := fun q => HasPlaces 15 q ∧ |q| < 10 ^ 4), hvalues]
    simp only [List.forall_mem_cons]
    exact ⟨⟨⟨-10 ^ 13, by norm_num⟩, by norm_num⟩, ⟨⟨-2 * 10 ^ 13, by norm_num⟩, by norm_num⟩,
      ⟨⟨-15 * 10 ^ 12, by norm_num⟩, by norm_num⟩, nofun⟩
  let rule : ApplyRule := ⟨"a", .avg, .avg⟩
  have hrule : rule.aggregate = .avg := rfl
  have hne : members ≠ [] := List.cons_ne_nil _ _
  obtain ⟨sum, -, hvalue, hround⟩ := value_avg_exact hrule hne (by decide)
    fun x hx => ⟨hfinite x hx, hsmall x hx⟩
  refine ⟨sum, hvalue, hround.trans ?_⟩
  rw [hvalues]
  decide +kernel

end Aggregate

end CampusQuery
