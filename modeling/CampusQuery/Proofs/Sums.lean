import CampusQuery.Proofs.Decimal
import Mathlib.Algebra.BigOperators.Group.List.Basic
import Mathlib.Algebra.BigOperators.Ring.List
import Mathlib.Algebra.Order.BigOperators.Group.List
import Mathlib.Algebra.Order.Ring.Int
/-!
Sums of decimals that do not depend on the order.

On the way, a sum gives up places that do not fit, and where it is zero it forgets the places that
it has. Decimals have one sum in any order if neither can happen to any of their partial sums.
-/

namespace CampusQuery

namespace Decimal

/-- The places that are enough for all numbers. -/
def places (l : List Decimal) : Nat :=
  (l.map Decimal.scale).foldr max 0

/-- The sum of the mantissas with the same places. -/
def total (scale : Nat) (l : List Decimal) : Int :=
  (l.map (·.mantissaAt scale)).sum

/-- The numbers that a sum takes note of. -/
def nonzero (l : List Decimal) : List Decimal :=
  l.filter (·.mantissa ≠ 0)

/-- Whatever some of the numbers are, their exact sum fits with the places of all, and where it is
zero they have no more places than any of the numbers. -/
def AddUp (l : List Decimal) : Prop :=
  ∀ part : List Decimal, part.Subperm (nonzero l) →
    (total (places (nonzero l)) part).natAbs < bound ∧
      (total (places (nonzero l)) part = 0 → ∀ a ∈ nonzero l, places part ≤ a.scale)

section

variable {l l' part : List Decimal} {scale : Nat}

theorem places_perm (h : l.Perm l') : places l = places l' :=
  (h.map _).foldr_eq 0

theorem total_perm (h : l.Perm l') : total scale l = total scale l' :=
  (h.map _).sum_eq

theorem nonzero_perm (h : l.Perm l') : (nonzero l).Perm (nonzero l') :=
  h.filter _

theorem AddUp.perm (h : l.Perm l') (hadd : AddUp l) : AddUp l' := by
  intro part hpart
  obtain ⟨hlt, hzero⟩ := hadd part ((nonzero_perm h).subperm_left.2 hpart)
  rw [← places_perm (nonzero_perm h)]
  exact ⟨hlt, fun htotal a ha => hzero htotal a ((nonzero_perm h).mem_iff.2 ha)⟩

theorem scale_le_places {a : Decimal} (h : a ∈ l) : a.scale ≤ places l := by
  induction l with
  | nil => cases h
  | cons b l ih =>
    rcases List.mem_cons.1 h with rfl | h
    · exact le_max_left _ _
    · exact (ih h).trans (le_max_right _ _)

theorem places_le_of_subset (h : part ⊆ l) : places part ≤ places l := by
  induction part with
  | nil => exact Nat.zero_le _
  | cons a part ih =>
    rw [List.cons_subset] at h
    exact max_le (scale_le_places h.1) (ih h.2)

theorem places_append_singleton (l : List Decimal) (a : Decimal) :
    places (l ++ [a]) = max (places l) a.scale := by
  rw [places_perm (List.perm_append_singleton a l)]
  exact max_comm _ _

theorem total_append_singleton (scale : Nat) (l : List Decimal) (a : Decimal) :
    total scale (l ++ [a]) = total scale l + a.mantissaAt scale := by
  simp [total]

theorem mantissaAt_self (a : Decimal) : a.mantissaAt a.scale = a.mantissa := by
  simp [mantissaAt]

theorem mantissaAt_eq_mul {a : Decimal} {scale' : Nat} (ha : a.scale ≤ scale)
    (h : scale ≤ scale') :
    a.mantissaAt scale' = a.mantissaAt scale * (Nat.pow 10 (scale' - scale) : Nat) := by
  have hpow : Nat.pow 10 (scale' - a.scale) =
      Nat.pow 10 (scale - a.scale) * Nat.pow 10 (scale' - scale) := by
    rw [Nat.pow_eq, Nat.pow_eq, Nat.pow_eq, ← Nat.pow_add]
    congr 1
    omega
  rw [mantissaAt, mantissaAt, hpow, Nat.cast_mul, mul_assoc]

/-- More places lengthen a sum as they lengthen each number. -/
theorem total_eq_mul {scale' : Nat} (hl : places l ≤ scale) (h : scale ≤ scale') :
    total scale' l = total scale l * (Nat.pow 10 (scale' - scale) : Nat) := by
  rw [total, total, ← List.sum_map_mul_right]
  congr 1
  apply List.map_congr_left
  intro a ha
  exact mantissaAt_eq_mul ((scale_le_places ha).trans hl) h

/-- What fits with more places fits with fewer. -/
theorem natAbs_total_le {scale' : Nat} (hl : places l ≤ scale) (h : scale ≤ scale') :
    (total scale l).natAbs ≤ (total scale' l).natAbs := by
  rw [total_eq_mul hl h, Int.natAbs_mul, Int.natAbs_natCast]
  exact Nat.le_mul_of_pos_right _ (Nat.pow_pos (by decide))

end

/-! ### One number more -/

/-- The sum of numbers with as many places as they need, or any zero. -/
structure SumOf (part : List Decimal) (sum : Decimal) : Prop where
  mantissa_eq : sum.mantissa = total (places part) part
  scale_eq : sum.mantissa ≠ 0 → sum.scale = places part

theorem fitted?_of_lt {mantissa : Int} {scale : Nat} (h : mantissa.natAbs < bound) :
    fitted? mantissa scale = some ⟨mantissa, scale⟩ := by
  have hexact : Rounding.halfEven mantissa.natAbs (Nat.pow 10 0) = mantissa.natAbs := by
    simpa using Rounding.halfEven_mul_self Nat.one_pos mantissa.natAbs
  rw [fitted?, List.range_succ_eq_map, List.findSome?_cons]
  simp only [hexact, if_pos h, Nat.sub_zero, signed_natAbs]

namespace SumOf

variable {part : List Decimal} {sum a : Decimal}

theorem nil : SumOf [] .zero :=
  ⟨rfl, fun h => absurd rfl h⟩

theorem add?_zero (h : SumOf part sum) (ha : a.mantissa = 0) :
    ∃ sum', sum.add? a = some sum' ∧ SumOf part sum' := by
  rw [Decimal.add?]
  split_ifs with hsum
  · exact ⟨a, rfl, ha.trans (hsum.symm.trans h.mantissa_eq), fun hne => absurd ha hne⟩
  · exact ⟨sum, rfl, h⟩

theorem add? (h : SumOf part sum) (ha : a.mantissa ≠ 0)
    (hplaces : total (places part) part = 0 → places part ≤ a.scale)
    (hfits : (total (places (part ++ [a])) (part ++ [a])).natAbs < bound) :
    ∃ sum', sum.add? a = some sum' ∧ SumOf (part ++ [a]) sum' := by
  rw [Decimal.add?]
  split_ifs with hsum
  · have htotal : total (places part) part = 0 := h.mantissa_eq.symm.trans hsum
    have hscale : places (part ++ [a]) = a.scale := by
      rw [places_append_singleton, max_eq_right (hplaces htotal)]
    refine ⟨a, rfl, ?_, fun _ => hscale.symm⟩
    rw [hscale, total_append_singleton, total_eq_mul le_rfl (hplaces htotal), htotal, zero_mul,
      zero_add, mantissaAt_self]
  · have hscale := h.scale_eq hsum
    have htotal : sum.mantissaAt (max (places part) a.scale) =
        total (max (places part) a.scale) part := by
      rw [total_eq_mul le_rfl (le_max_left _ _), ← h.mantissa_eq, ← hscale, mantissaAt]
    rw [places_append_singleton, total_append_singleton] at hfits
    dsimp only
    rw [hscale, htotal, fitted?_of_lt hfits]
    refine ⟨_, rfl, ?_, fun _ => (places_append_singleton part a).symm⟩
    rw [places_append_singleton, total_append_singleton]

end SumOf

/-! ### Sums in any order -/

theorem AddUp.total {l part : List Decimal} (hadd : AddUp l) (hpart : part.Subperm (nonzero l)) :
    (Decimal.total (places part) part).natAbs < bound ∧
      (Decimal.total (places part) part = 0 → ∀ a ∈ nonzero l, places part ≤ a.scale) := by
  obtain ⟨hlt, hzero⟩ := hadd part hpart
  have hplaces := places_le_of_subset hpart.subset
  refine ⟨(natAbs_total_le le_rfl hplaces).trans_lt hlt, fun htotal => hzero ?_⟩
  rw [total_eq_mul le_rfl hplaces, htotal, zero_mul]

/-- On the way, the sum is that of the numbers so far. -/
theorem AddUp.exists_foldlM {l : List Decimal} (hadd : AddUp l) {done rest : List Decimal}
    (hl : done ++ rest = l) {sum : Decimal} (hsum : SumOf (nonzero done) sum) :
    ∃ sum', rest.foldlM Decimal.add? sum = some sum' ∧ SumOf (nonzero l) sum' := by
  induction rest generalizing done sum with
  | nil =>
    rw [List.append_nil] at hl
    exact ⟨sum, rfl, hl ▸ hsum⟩
  | cons a rest ih =>
    have hl' : (done ++ [a]) ++ rest = l := by
      rw [List.append_assoc]
      exact hl
    have hsub {done rest : List Decimal} (h : done ++ rest = l) :
        (nonzero done).Subperm (nonzero l) := by
      rw [← h, nonzero, nonzero, List.filter_append]
      exact (List.sublist_append_left _ _).subperm
    have hstep : ∃ sum', sum.add? a = some sum' ∧ SumOf (nonzero (done ++ [a])) sum' := by
      by_cases ha : a.mantissa = 0
      · have hnonzero : nonzero (done ++ [a]) = nonzero done := by
          simp [nonzero, ha]
        rw [hnonzero]
        exact hsum.add?_zero ha
      · have hnonzero : nonzero (done ++ [a]) = nonzero done ++ [a] := by
          simp [nonzero, ha]
        have hmem : a ∈ nonzero l := (hsub hl').subset (by simp [hnonzero])
        have hfits := (hadd.total (hsub hl')).1
        rw [hnonzero] at hfits ⊢
        exact hsum.add? ha (fun htotal => (hadd.total (hsub hl)).2 htotal a hmem) hfits
    obtain ⟨sum', hadd?, hsum'⟩ := hstep
    obtain ⟨sum'', hrest, hsum''⟩ := ih hl' hsum'
    refine ⟨sum'', ?_, hsum''⟩
    rw [List.foldlM_cons, hadd?]
    exact hrest

theorem AddUp.exists_sum {l : List Decimal} (hadd : AddUp l) :
    ∃ sum, l.foldlM Decimal.add? zero = some sum ∧ SumOf (nonzero l) sum :=
  hadd.exists_foldlM (List.nil_append l) .nil

/-- Two zeros, or one decimal. -/
def Alike (a b : Decimal) : Prop :=
  a = b ∨ a.mantissa = 0 ∧ b.mantissa = 0

theorem SumOf.alike {part part' : List Decimal} {sum sum' : Decimal} (h : SumOf part sum)
    (h' : SumOf part' sum') (hperm : part.Perm part') : Alike sum sum' := by
  have hmantissa : sum.mantissa = sum'.mantissa := by
    rw [h.mantissa_eq, h'.mantissa_eq, places_perm hperm, total_perm hperm]
  by_cases hzero : sum.mantissa = 0
  · exact .inr ⟨hzero, hmantissa ▸ hzero⟩
  · have hscale : sum.scale = sum'.scale := by
      rw [h.scale_eq hzero, h'.scale_eq (hmantissa ▸ hzero), places_perm hperm]
    obtain ⟨mantissa, scale⟩ := sum
    obtain ⟨mantissa', scale'⟩ := sum'
    exact .inl (congr (congrArg Decimal.mk hmantissa) hscale)

/-- Numbers that are not negative add up where their sum fits. -/
theorem AddUp.of_nonneg {l : List Decimal} (hnonneg : ∀ a ∈ l, 0 ≤ a.mantissa)
    (hlt : (Decimal.total (places (nonzero l)) (nonzero l)).natAbs < bound) : AddUp l := by
  have hpos : ∀ a ∈ nonzero l, 0 < a.mantissaAt (places (nonzero l)) := by
    intro a ha
    obtain ⟨hmem, hne⟩ := List.mem_filter.1 ha
    have hmantissa : 0 < a.mantissa :=
      lt_of_le_of_ne (hnonneg a hmem) (Ne.symm (by simpa using hne))
    exact mul_pos hmantissa (Int.natCast_pos.2 (Nat.pow_pos (by decide)))
  intro part hpart
  obtain ⟨part', hperm, hsublist⟩ := hpart
  rw [← total_perm hperm, ← places_perm hperm]
  have hpos' : ∀ i ∈ part'.map (·.mantissaAt (places (nonzero l))), 0 < i :=
    List.forall_mem_map.2 fun a ha => hpos a (hsublist.subset ha)
  have hnonneg : 0 ≤ Decimal.total (places (nonzero l)) part' :=
    List.sum_nonneg fun i hi => (hpos' i hi).le
  have hle : Decimal.total (places (nonzero l)) part' ≤
      Decimal.total (places (nonzero l)) (nonzero l) :=
    (hsublist.map _).sum_le_sum (List.forall_mem_map.2 fun a ha => (hpos a ha).le)
  refine ⟨by omega, fun htotal a _ => ?_⟩
  cases part' with
  | nil => exact Nat.zero_le _
  | cons b part' => exact absurd htotal (List.sum_pos _ hpos' (List.cons_ne_nil _ _)).ne'

theorem mantissa_divide_eq_zero {a : Decimal} (h : a.mantissa = 0) (n : Nat) :
    (a.divide n).mantissa = 0 := by
  simp [divide, h, signed]

theorem toDouble_toCents_of_zero {a : Decimal} (h : a.mantissa = 0) :
    a.toCents.toDouble = Double.zero := by
  have hdouble {scale : Nat} : toDouble ⟨0, scale⟩ = Double.zero := by
    simp [toDouble, Double.ofFraction, Double.zero]
  obtain ⟨mantissa, scale⟩ := a
  obtain rfl : mantissa = 0 := h
  rw [toCents]
  split_ifs
  · exact hdouble
  · have hcents : Rounding.halfUp 0 (Nat.pow 10 (scale - 2)) = 0 := by
      simp [Rounding.halfUp]
    change (signed _ (Rounding.halfUp 0 (Nat.pow 10 (scale - 2))) 2).toDouble = _
    rw [hcents]
    exact hdouble

theorem Alike.toDouble_toCents {a b : Decimal} (h : Alike a b) :
    a.toCents.toDouble = b.toCents.toDouble := by
  rcases h with rfl | ⟨ha, hb⟩
  · rfl
  · rw [toDouble_toCents_of_zero ha, toDouble_toCents_of_zero hb]

theorem Alike.divide {a b : Decimal} (h : Alike a b) (n : Nat) :
    Alike (a.divide n) (b.divide n) := by
  rcases h with rfl | ⟨ha, hb⟩
  · exact .inl rfl
  · exact .inr ⟨mantissa_divide_eq_zero ha n, mantissa_divide_eq_zero hb n⟩

end Decimal

namespace Aggregate

variable {numbers numbers' : List Double}

/-- The numbers have a sum in no order, as one of them is no decimal, or one and the same in every
order. -/
def OrderFree (numbers : List Double) : Prop :=
  (∃ x ∈ numbers, Decimal.ofDouble? x = none) ∨ Decimal.AddUp (numbers.filterMap Decimal.ofDouble?)

theorem exists_exactSum_eq_error {x : Double} (hx : x ∈ numbers)
    (h : Decimal.ofDouble? x = none) : ∃ fault, exactSum numbers = .error fault := by
  unfold exactSum
  generalize Decimal.zero = start
  induction numbers generalizing start with
  | nil => cases hx
  | cons y numbers ih =>
    rw [List.foldlM_cons]
    rcases List.mem_cons.1 hx with rfl | hx
    · rw [h]
      exact ⟨_, rfl⟩
    · cases hy : Decimal.ofDouble? y with
      | none => exact ⟨_, rfl⟩
      | some a =>
        cases hsum : start.add? a with
        | none =>
          simp only [hsum]
          exact ⟨_, rfl⟩
        | some sum =>
          simp only [hsum]
          exact ih hx sum

theorem exactSum_eq_ok (hdecimals : ∀ x ∈ numbers, Decimal.ofDouble? x ≠ none) {sum : Decimal}
    (h : (numbers.filterMap Decimal.ofDouble?).foldlM Decimal.add? .zero = some sum) :
    exactSum numbers = .ok sum := by
  unfold exactSum
  generalize Decimal.zero = start at h ⊢
  induction numbers generalizing start with
  | nil =>
    cases h
    rfl
  | cons x numbers ih =>
    rw [List.forall_mem_cons] at hdecimals
    obtain ⟨a, ha⟩ := Option.ne_none_iff_exists'.1 hdecimals.1
    rw [List.filterMap_cons_some ha, List.foldlM_cons] at h
    obtain ⟨middle, hmiddle, hrest⟩ := Option.bind_eq_some_iff.1 h
    rw [List.foldlM_cons, ha]
    simp only [hmiddle]
    exact ih hdecimals.2 middle hrest

theorem exactSum_perm (hperm : numbers.Perm numbers') (hfree : OrderFree numbers) :
    Outcome.Alike Decimal.Alike (exactSum numbers) (exactSum numbers') := by
  by_cases hdecimals : ∃ x ∈ numbers, Decimal.ofDouble? x = none
  · obtain ⟨x, hx, hnone⟩ := hdecimals
    obtain ⟨fault, hfault⟩ := exists_exactSum_eq_error hx hnone
    obtain ⟨fault', hfault'⟩ := exists_exactSum_eq_error (hperm.mem_iff.1 hx) hnone
    rw [hfault, hfault']
    exact .error fault fault'
  · have hadd := hfree.resolve_left hdecimals
    push Not at hdecimals
    have hperm' := hperm.filterMap Decimal.ofDouble?
    obtain ⟨sum, hsum, hof⟩ := hadd.exists_sum
    obtain ⟨sum', hsum', hof'⟩ := (hadd.perm hperm').exists_sum
    rw [exactSum_eq_ok hdecimals hsum,
      exactSum_eq_ok (fun x hx => hdecimals x (hperm.mem_iff.2 hx)) hsum']
    exact .ok (hof.alike hof' (Decimal.nonzero_perm hperm'))

end Aggregate

end CampusQuery
