import CampusQuery.Answer.Grouping
import CampusQuery.Proofs.Double.Rounding
import CampusQuery.Proofs.Outcome
/-!
Sums and averages are finite.

Every decimal of a sum has a mantissa below `2 ^ 96` in size. A division adds at most twenty-eight
places and rounding to cents leaves two, which is far from what the doubles cannot hold.
-/

namespace CampusQuery

namespace Double

theorem isFinite_of_magnitude_le {x : Double} {k : Nat} (hk : k ≤ 1023)
    (h : x.magnitude ≤ (k + 1023) * 0x10000000000000) : x.isFinite = true := by
  apply decide_eq_true
  unfold infinity
  omega

theorem isFinite_ofFraction (negative : Bool) {num den k : Nat} (hden : 0 < den) (hk : k ≤ 1023)
    (h : num ≤ den * 2 ^ k) : (ofFraction negative num den).isFinite = true :=
  isFinite_of_magnitude_le hk (magnitude_ofFraction_le negative hden hk h)

theorem isFinite_ofInt {n : Int} (h : n.natAbs ≤ 2 ^ 64) : (ofInt n).isFinite = true :=
  isFinite_ofFraction (k := 64) _ Nat.one_pos (by decide) (by omega)

/-- Rounding does not lead across a power of two. -/
theorem fraction_ofFraction_le (negative : Bool) {num den k : Nat} (hden : 0 < den) (hk : k ≤ 1023)
    (h : num ≤ den * 2 ^ k) :
    (ofFraction negative num den).fraction.1 ≤ (ofFraction negative num den).fraction.2 * 2 ^ k :=
  fraction_le_of_magnitude_le (magnitude_ofFraction_le negative hden hk h)

theorem isNaN_eq_false {x : Double} (hx : x.isFinite = true) : x.isNaN = false := by
  have hlt : x.magnitude < infinity := of_decide_eq_true hx
  exact decide_eq_false (by omega)

theorem max_eq_ite {x y : Double} (hx : x.isNaN = false) (hy : y.isNaN = false) :
    x.max y = if x.ordinal < y.ordinal then y else x := by
  simp [max, lt, hx, hy]

theorem min_eq_ite {x y : Double} (hx : x.isNaN = false) (hy : y.isNaN = false) :
    x.min y = if y.ordinal < x.ordinal then y else x := by
  simp [min, lt, hx, hy]

theorem max_selects {x y : Double} (hx : x.isFinite = true) (hy : y.isFinite = true) :
    x.max y = x ∧ y.ordinal ≤ x.ordinal ∨ x.max y = y ∧ x.ordinal ≤ y.ordinal := by
  rw [max_eq_ite (isNaN_eq_false hx) (isNaN_eq_false hy)]
  split_ifs with h
  · exact .inr ⟨rfl, h.le⟩
  · exact .inl ⟨rfl, not_lt.1 h⟩

theorem min_selects {x y : Double} (hx : x.isFinite = true) (hy : y.isFinite = true) :
    x.min y = x ∧ -y.ordinal ≤ -x.ordinal ∨ x.min y = y ∧ -x.ordinal ≤ -y.ordinal := by
  rw [min_eq_ite (isNaN_eq_false hx) (isNaN_eq_false hy)]
  split_ifs with h
  · exact .inr ⟨rfl, neg_le_neg h.le⟩
  · exact .inl ⟨rfl, neg_le_neg (not_lt.1 h)⟩

end Double

namespace Decimal

theorem natAbs_signed (negative : Bool) (size scale : Nat) :
    (signed negative size scale).mantissa.natAbs = size := by
  cases negative <;> simp [signed]

theorem signed_natAbs (mantissa : Int) (scale : Nat) :
    signed (decide (mantissa < 0)) mantissa.natAbs scale = ⟨mantissa, scale⟩ := by
  simp only [signed, decide_eq_true_eq, mk.injEq, and_true]
  split_ifs <;> omega

/-! ### Sums -/

theorem withPlaces_lt {size scale : Nat} {places : List Nat} (h : size < bound) :
    (withPlaces size scale places).1 < bound := by
  induction places generalizing size scale with
  | nil => exact h
  | cons digit places ih =>
    unfold withPlaces
    split_ifs with hfits _ hnext
    · exact ih hfits.2
    · exact h
    · exact hnext
    · change (size + 5) / 10 < bound
      unfold bound at *
      omega

theorem ofDouble?_lt {x : Double} {a : Decimal} (h : ofDouble? x = some a) :
    a.mantissa.natAbs < bound := by
  unfold ofDouble? at h
  simp only at h
  split_ifs at h with hfinite hsize
  · cases h
    rw [natAbs_signed]
    exact withPlaces_lt hsize
  · unfold ofLarge? at h
    simp only at h
    split_ifs at h with hlarge
    cases h
    rwa [natAbs_signed]

theorem fitted?_lt {mantissa : Int} {scale : Nat} {a : Decimal}
    (h : fitted? mantissa scale = some a) : a.mantissa.natAbs < bound := by
  obtain ⟨dropped, -, hdropped⟩ := List.exists_of_findSome?_eq_some h
  simp only at hdropped
  split_ifs at hdropped with hsize
  cases hdropped
  rwa [natAbs_signed]

theorem add?_lt {a b c : Decimal} (ha : a.mantissa.natAbs < bound) (hb : b.mantissa.natAbs < bound)
    (h : a.add? b = some c) : c.mantissa.natAbs < bound := by
  unfold add? at h
  split_ifs at h
  · cases h
    exact hb
  · cases h
    exact ha
  · exact fitted?_lt h

end Decimal

theorem Aggregate.exactSum_lt {numbers : List Double} {a : Decimal}
    (h : exactSum numbers = .ok a) : a.mantissa.natAbs < Decimal.bound := by
  refine Outcome.foldlM_induction (P := fun sum => sum.mantissa.natAbs < Decimal.bound)
    (by decide) (fun x _ sum sum' hsum hstep => ?_) h
  cases hx : Decimal.ofDouble? x with
  | none => simp [hx] at hstep
  | some d =>
    cases hadd : sum.add? d with
    | none => simp [hx, hadd] at hstep
    | some c =>
      simp only [hx, hadd] at hstep
      cases hstep
      exact Decimal.add?_lt hsum (Decimal.ofDouble?_lt hx) hadd

namespace Decimal

/-! ### Quotients -/

theorem dropZeros_le (count : Nat) (p : Nat × Nat) : (dropZeros count p).1 ≤ p.1 := by
  obtain ⟨size, scale⟩ := p
  simp only [dropZeros]
  split_ifs
  · exact Nat.div_le_self _ _
  · exact le_rfl

theorem dropEightZeros_le (p : Nat × Nat) : (dropEightZeros p).1 ≤ p.1 := by
  obtain ⟨size, scale⟩ := p
  simp only [dropEightZeros]
  split_ifs
  · exact dropZeros_le 8 (size, scale)
  · exact le_rfl

theorem trimmed_le (size scale : Nat) : (trimmed size scale).1 ≤ size :=
  calc (trimmed size scale).1
      ≤ _ := dropZeros_le 1 _
    _ ≤ _ := dropZeros_le 2 _
    _ ≤ _ := dropZeros_le 4 _
    _ ≤ _ := dropEightZeros_le _
    _ ≤ _ := dropEightZeros_le _
    _ ≤ size := dropEightZeros_le _

theorem add_room_le {size scale : Nat} (h : room size scale ≠ 0) :
    scale + room size scale ≤ maxScale := by
  unfold room at h ⊢
  cases hfind : (List.range 10).reverse.find? fun n =>
      decide (scale + n ≤ maxScale ∧ size * Nat.pow 10 n < bound) with
  | none =>
    rw [hfind] at h
    exact absurd rfl h
  | some n =>
    have hn := List.find?_some hfind
    exact (of_decide_eq_true hn).1

theorem quotientPlaces_le (size scale n fuel : Nat) {added : Nat} (h : added ≤ maxScale) :
    quotientPlaces size scale n fuel added ≤ maxScale := by
  induction fuel generalizing added with
  | zero => exact h
  | succ fuel ih =>
    unfold quotientPlaces
    simp only
    split_ifs with hdone
    · exact h
    · have hroom := add_room_le (not_or.1 hdone).2
      exact ih (by omega)

theorem divide_lt {a : Decimal} (n : Nat) (h : a.mantissa.natAbs < bound) :
    (a.divide n).mantissa.natAbs < 2 ^ 199 := by
  unfold bound at h
  have hquotient {added : Nat} (hadded : added ≤ maxScale) :
      Rounding.halfEven (a.mantissa.natAbs * Nat.pow 10 added) n < 2 ^ 199 := by
    have hpow : Nat.pow 10 added ≤ Nat.pow 10 28 := Nat.pow_le_pow_right (by decide) hadded
    calc Rounding.halfEven (a.mantissa.natAbs * Nat.pow 10 added) n
        ≤ a.mantissa.natAbs * Nat.pow 10 added + 1 := Rounding.halfEven_le_add_one _ _
      _ ≤ 0x1000000000000000000000000 * Nat.pow 10 28 + 1 :=
          Nat.add_le_add_right (Nat.mul_le_mul h.le hpow) 1
      _ < 2 ^ 199 := by norm_num
  have hplaces := quotientPlaces_le a.mantissa.natAbs a.scale n maxScale (Nat.zero_le _)
  simp only [divide]
  split_ifs
  · have hdiv := Nat.div_le_self a.mantissa.natAbs n
    rw [natAbs_signed]
    omega
  · rw [natAbs_signed]
    exact (trimmed_le _ _).trans_lt (hquotient hplaces)
  · rw [natAbs_signed]
    exact (trimmed_le _ _).trans_lt (hquotient ((Nat.sub_le _ 1).trans hplaces))

theorem toCents_lt {a : Decimal} (h : a.mantissa.natAbs < 2 ^ 199) :
    a.toCents.mantissa.natAbs < 2 ^ 200 ∧ a.toCents.scale ≤ 2 := by
  unfold toCents
  split_ifs with hscale
  · exact ⟨by omega, hscale⟩
  · have hle := Rounding.halfUp_le a.mantissa.natAbs (Nat.pow 10 (a.scale - 2))
    have hdiv := Nat.div_le_self a.mantissa.natAbs (Nat.pow 10 (a.scale - 2))
    refine ⟨?_, le_rfl⟩
    simp only [natAbs_signed]
    omega

/-- Every step on the way to the double stays far below the largest one. -/
theorem isFinite_toDouble {a : Decimal} (hsize : a.mantissa.natAbs < 2 ^ 200)
    (hscale : a.scale ≤ 2) : a.toDouble.isFinite = true := by
  have hunit : 0 < Nat.pow 10 a.scale := Nat.pow_pos (by decide)
  have hunit' : Nat.pow 10 a.scale ≤ 2 ^ 7 :=
    (Nat.pow_le_pow_right (by decide) hscale).trans (by norm_num)
  simp only [toDouble]
  generalize Nat.pow 10 a.scale = unit at hunit hunit'
  have hwhole : a.mantissa.natAbs / unit ≤ 1 * 2 ^ 200 := by
    have hdiv := Nat.div_le_self a.mantissa.natAbs unit
    omega
  have hplaces : a.mantissa.natAbs % unit ≤ unit * 2 ^ 0 := by
    have hmod := Nat.mod_lt a.mantissa.natAbs hunit
    omega
  split_ifs
  · exact Double.isFinite_ofFraction _ Nat.one_pos (by decide) hwhole
  have hn := Double.fraction_ofFraction_le (decide (a.mantissa < 0)) Nat.one_pos (by decide) hwhole
  have hm := Double.fraction_ofFraction_le false hunit (by decide) hplaces
  have hd :=
    (Double.ofFraction (decide (a.mantissa < 0)) (a.mantissa.natAbs / unit) 1).fraction_eq.1
  have he := (Double.ofFraction false (a.mantissa.natAbs % unit) unit).fraction_eq.1
  generalize Double.ofFraction (decide (a.mantissa < 0)) (a.mantissa.natAbs / unit) 1 = whole at *
  generalize Double.ofFraction false (a.mantissa.natAbs % unit) unit = places at *
  have hsum : whole.fraction.1 * places.fraction.2 + places.fraction.1 * whole.fraction.2 ≤
      whole.fraction.2 * places.fraction.2 * 2 ^ 201 := by
    nlinarith [Nat.mul_le_mul_right places.fraction.2 hn, Nat.mul_le_mul_right whole.fraction.2 hm,
      Nat.mul_pos hd he]
  have hsum' := Double.fraction_ofFraction_le false (Nat.mul_pos hd he) (by decide) hsum
  have hsumPos := (Double.ofFraction false (whole.fraction.1 * places.fraction.2 +
    places.fraction.1 * whole.fraction.2) (whole.fraction.2 * places.fraction.2)).fraction_eq.1
  generalize Double.ofFraction false (whole.fraction.1 * places.fraction.2 +
    places.fraction.1 * whole.fraction.2) (whole.fraction.2 * places.fraction.2) = sum at *
  have hscaled : sum.fraction.1 * unit ≤ sum.fraction.2 * 2 ^ 208 :=
    calc sum.fraction.1 * unit ≤ sum.fraction.2 * 2 ^ 201 * 2 ^ 7 := Nat.mul_le_mul hsum' hunit'
      _ = sum.fraction.2 * 2 ^ 208 := by rw [Nat.mul_assoc, ← Nat.pow_add]
  have hscaled' := Double.fraction_ofFraction_le false hsumPos (by decide) hscaled
  generalize Double.ofFraction false (sum.fraction.1 * unit) sum.fraction.2 = scaled at *
  have hquotient : scaled.fraction.1 / scaled.fraction.2 ≤ 2 ^ 208 :=
    Nat.div_le_of_le_mul hscaled'
  have hround := Rounding.halfUp_le scaled.fraction.1 scaled.fraction.2
  refine Double.isFinite_ofFraction (k := 209) _ hunit (by decide) ?_
  nlinarith

end Decimal

end CampusQuery
