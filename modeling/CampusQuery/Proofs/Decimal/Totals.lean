import CampusQuery.Proofs.Decimal.Values
import CampusQuery.Proofs.Sums
/-!
Sums are exact.

A sum with few places that is small enough is kept exactly, whatever places the decimals have on the
way: a place is given up only where it does not fit, and then it holds a zero.
-/

namespace CampusQuery

namespace Decimal

theorem value_eq_zero {a : Decimal} (h : a.mantissa = 0) : a.value = 0 := by
  rw [value, h, Int.cast_zero, zero_div]

/-- Places that hold zeros can be given up. -/
theorem value_dropped {mantissa : Int} {scale dropped : Nat} (hle : dropped ≤ scale)
    (h : 10 ^ dropped ∣ mantissa.natAbs) :
    (signed (decide (mantissa < 0)) (Rounding.halfEven mantissa.natAbs (Nat.pow 10 dropped))
      (scale - dropped)).value = value ⟨mantissa, scale⟩ := by
  have hpow := (pow_sub_mul_pow (10 : ℚ) hle).symm
  obtain ⟨size, hsize⟩ := h
  have hexact : Rounding.halfEven (10 ^ dropped * size) (Nat.pow 10 dropped) = size :=
    Rounding.halfEven_mul_self (Nat.pow_pos (by decide)) size
  rw [value_signed, value_eq_sign_mul ⟨mantissa, scale⟩, hsize, hexact, hpow]
  push_cast
  congr 1
  field_simp

/-- Of the numbers in a range, none after the one that is known gives the result. -/
theorem exists_findSome?_range {α : Type} {f : Nat → Option α} {n k : Nat} (hk : k < n)
    (h : (f k).isSome = true) :
    ∃ i ≤ k, (List.range n).findSome? f = f i ∧ (f i).isSome = true := by
  have hsome : ((List.range (k + 1)).findSome? f).isSome = true :=
    List.findSome?_isSome_iff.2 ⟨k, List.mem_range.2 (Nat.lt_succ_self k), h⟩
  obtain ⟨a, ha⟩ := Option.isSome_iff_exists.1 hsome
  obtain ⟨i, hi, hresult⟩ := List.exists_of_findSome?_eq_some ha
  refine ⟨i, Nat.le_of_lt_succ (List.mem_range.1 hi), ?_, by rw [hresult, Option.isSome_some]⟩
  rw [← Nat.add_sub_of_le hk, List.range_add, List.findSome?_append, ha, hresult, Option.some_or]

/-- Only zeros are given up where the number has few places and is small enough. -/
theorem exists_fitted? {mantissa : Int} {scale places : Nat}
    (hvalue : HasPlaces places (value ⟨mantissa, scale⟩))
    (hlt : |value ⟨mantissa, scale⟩| * 10 ^ places < bound) :
    ∃ a, fitted? mantissa scale = some a ∧ a.value = value ⟨mantissa, scale⟩ := by
  have hmantissa : (mantissa : ℚ) = value ⟨mantissa, scale⟩ * 10 ^ scale :=
    (div_mul_cancel₀ _ (by positivity)).symm
  set q := value ⟨mantissa, scale⟩
  obtain ⟨kept, hkept, hle, n, hn⟩ : ∃ kept ≤ scale, kept ≤ places ∧ HasPlaces kept q := by
    rcases le_total scale places with hle | hle
    · exact ⟨scale, le_rfl, hle, mantissa, hmantissa.symm⟩
    · exact ⟨places, hle, le_rfl, hvalue⟩
  have hsize : mantissa.natAbs = 10 ^ (scale - kept) * n.natAbs := by
    have hmantissa' : mantissa = 10 ^ (scale - kept) * n := by
      rw [← pow_sub_mul_pow 10 hkept, mul_left_comm, hn] at hmantissa
      exact_mod_cast hmantissa
    rw [hmantissa', Int.natAbs_mul, Int.natAbs_pow]
    rfl
  have hfits : n.natAbs < bound := by
    have habs : (n.natAbs : ℚ) ≤ |q| * 10 ^ places :=
      calc (n.natAbs : ℚ) = |q| * 10 ^ kept := by
            rw [Nat.cast_natAbs, Int.cast_abs, ← hn, abs_mul, abs_of_pos (a := 10 ^ kept)]
            positivity
        _ ≤ |q| * 10 ^ places := by
            gcongr
            norm_num
    exact_mod_cast habs.trans_lt hlt
  have hkeeps : Rounding.halfEven mantissa.natAbs (10 ^ (scale - kept)) < bound := by
    rw [hsize, Rounding.halfEven_mul_self (Nat.pow_pos (by decide))]
    exact hfits
  obtain ⟨dropped, hdropped, hfirst, hsome⟩ := exists_findSome?_range
    (f := fun dropped =>
      let size := Rounding.halfEven mantissa.natAbs (Nat.pow 10 dropped)
      if size < bound then some (signed (decide (mantissa < 0)) size (scale - dropped)) else none)
    (Nat.lt_succ_of_le (Nat.sub_le scale kept)) (by simpa using hkeeps)
  refine ⟨_, hfirst.trans ?_, value_dropped (hdropped.trans (Nat.sub_le scale kept)) ?_⟩
  · simp only at hsome ⊢
    split_ifs at hsome ⊢
    · rfl
    · cases hsome
  · exact (Nat.pow_dvd_pow 10 hdropped).trans ⟨n.natAbs, hsize⟩

theorem value_mantissaAt (a : Decimal) {scale : Nat} (h : a.scale ≤ scale) :
    value ⟨a.mantissaAt scale, scale⟩ = a.value := by
  rw [value, value, mantissaAt, ← pow_mul_pow_sub 10 h, Nat.pow_eq]
  push_cast
  exact mul_div_mul_right _ _ (by positivity)

/-- The sum of two numbers is exact where it has few places and is small enough. -/
theorem exists_add? {a b : Decimal} {places : Nat} (ha : HasPlaces places a.value)
    (hb : HasPlaces places b.value) (hlt : |a.value + b.value| * 10 ^ places < bound) :
    ∃ c, a.add? b = some c ∧ c.value = a.value + b.value := by
  unfold add?
  split_ifs with hzero hzero'
  · exact ⟨b, rfl, by rw [value_eq_zero hzero, zero_add]⟩
  · exact ⟨a, rfl, by rw [value_eq_zero hzero', add_zero]⟩
  · have hsum : value ⟨a.mantissaAt (max a.scale b.scale) + b.mantissaAt (max a.scale b.scale),
        max a.scale b.scale⟩ = a.value + b.value := by
      rw [value, Int.cast_add, add_div, ← value_mantissaAt a (le_max_left a.scale b.scale),
        ← value_mantissaAt b (le_max_right a.scale b.scale)]
      rfl
    rw [← hsum] at hlt ⊢
    exact exists_fitted? (hsum ▸ ha.add hb) hlt

/-- On the way, a sum is that of the numbers so far. -/
theorem exists_foldlM_add? {l : List Decimal} {places : Nat}
    (hl : ∀ a ∈ l, HasPlaces places a.value) {start : Decimal}
    (hstart : HasPlaces places start.value)
    (hlt : (|start.value| + (l.map fun a => |a.value|).sum) * 10 ^ places < bound) :
    ∃ sum, l.foldlM add? start = some sum ∧ sum.value = start.value + (l.map value).sum := by
  induction l generalizing start with
  | nil => exact ⟨start, rfl, by simp⟩
  | cons a l ih =>
    rw [List.forall_mem_cons] at hl
    rw [List.map_cons, List.sum_cons] at hlt
    have hrest : 0 ≤ (l.map fun a => |a.value|).sum :=
      List.sum_nonneg (List.forall_mem_map.2 fun a _ => abs_nonneg a.value)
    have habs := abs_add_le start.value a.value
    have hpow : (0 : ℚ) < 10 ^ places := by positivity
    obtain ⟨next, hnext, hvalue⟩ := exists_add? hstart hl.1 (by nlinarith)
    have hnext' : HasPlaces places next.value := hvalue ▸ hstart.add hl.1
    obtain ⟨sum, hsum, hvalue'⟩ := ih hl.2 hnext' (by rw [hvalue]; nlinarith)
    refine ⟨sum, ?_, ?_⟩
    · rw [List.foldlM_cons, hnext]
      exact hsum
    · rw [hvalue', hvalue, List.map_cons, List.sum_cons, add_assoc]

end Decimal

namespace Aggregate

/-- The sum of doubles is that of their shortest decimals, where these have few places and are small
enough altogether. -/
theorem exists_exactSum {numbers : List Double} {places : Nat}
    (hplaces : places ≤ Decimal.maxScale) (hfinite : ∀ x ∈ numbers, x.isFinite = true)
    (hvalues : ∀ x ∈ numbers, HasPlaces places x.shortestValue)
    (hlt : (numbers.map fun x => |x.shortestValue|).sum * 10 ^ places < Decimal.bound) :
    ∃ sum, exactSum numbers = .ok sum ∧ sum.value = (numbers.map Double.shortestValue).sum := by
  have hdecimal : ∀ x ∈ numbers, ∃ a, Decimal.ofDouble? x = some a ∧ a.value = x.shortestValue := by
    intro x hx
    have hle : |x.shortestValue| ≤ (numbers.map fun x => |x.shortestValue|).sum :=
      List.single_le_sum (List.forall_mem_map.2 fun x _ => abs_nonneg x.shortestValue) _
        (List.mem_map_of_mem hx)
    have hpow : (0 : ℚ) < 10 ^ places := by positivity
    exact Decimal.exists_ofDouble? (hfinite x hx) hplaces (hvalues x hx) (by nlinarith)
  have hmap : (numbers.filterMap Decimal.ofDouble?).map Decimal.value =
      numbers.map Double.shortestValue := by
    rw [List.map_filterMap, ← List.filterMap_eq_map]
    apply List.filterMap_congr
    intro x hx
    obtain ⟨a, ha, hvalue⟩ := hdecimal x hx
    rw [ha, Option.map_some, hvalue]
    rfl
  have habs : (numbers.filterMap Decimal.ofDouble?).map (fun a => |a.value|) =
      numbers.map fun x => |x.shortestValue| := by
    have habs := congrArg (List.map fun q : ℚ => |q|) hmap
    rwa [List.map_map, List.map_map] at habs
  have hl : ∀ a ∈ numbers.filterMap Decimal.ofDouble?, HasPlaces places a.value := by
    rw [← List.forall_mem_map, hmap, List.forall_mem_map]
    exact hvalues
  have hzero : Decimal.zero.value = 0 := Decimal.value_eq_zero rfl
  rw [← habs, ← zero_add (List.sum _), ← abs_zero, ← hzero] at hlt
  obtain ⟨sum, hsum, hvalue⟩ := Decimal.exists_foldlM_add? hl (hzero ▸ .zero) hlt
  refine ⟨sum, exactSum_eq_ok (fun x hx => ?_) hsum, ?_⟩
  · obtain ⟨a, ha, -⟩ := hdecimal x hx
    simp [ha]
  · rw [hvalue, hmap, hzero, zero_add]

/-- Sums are exact. Where the shortest decimals of the numbers of a group have few places and are
small enough altogether, SUM is their sum, rounded once, in any order of the group. -/
theorem value_sum_exact {rule : ApplyRule} (hrule : rule.aggregate = .sum)
    {members members' : List Record} (hperm : members.Perm members') {places : Nat}
    (hplaces : places ≤ 28)
    (hnumbers : ∀ x ∈ members.filterMap (·.number? rule.field),
      x.isFinite = true ∧ HasPlaces places x.shortestValue)
    (hlt : ((members.filterMap (·.number? rule.field)).map fun x => |x.shortestValue|).sum *
      10 ^ places < 2 ^ 96) :
    ∃ sum, exactSum (members'.filterMap (·.number? rule.field)) = .ok sum ∧
      value rule members' = .ok sum.toCents.toDouble ∧
      sum.toCents.value = Rounding.toHundredths
        ((members.filterMap (·.number? rule.field)).map Double.shortestValue).sum := by
  have hnumbers' := hperm.filterMap (·.number? rule.field)
  have hbound : (Decimal.bound : ℚ) = 2 ^ 96 := by
    norm_num [Decimal.bound]
  rw [(hnumbers'.map _).sum_eq, ← hbound] at hlt
  obtain ⟨sum, hsum, hvalue⟩ := exists_exactSum hplaces
    (fun x hx => (hnumbers x (hnumbers'.mem_iff.2 hx)).1)
    (fun x hx => (hnumbers x (hnumbers'.mem_iff.2 hx)).2) hlt
  refine ⟨sum, hsum, ?_, ?_⟩
  · simp only [value, hrule, hsum]
    rfl
  · rw [Decimal.value_toCents, hvalue, (hnumbers'.map _).sum_eq]

/-- A sum of `-10.255`, added up from back to front. -/
theorem value_sum_exact_of_negative_half :
    let taught (avg : Double) : Record :=
      .ofSection ⟨"cpsc", "", "", "", "", .zero, avg, .zero, .zero, .zero⟩
    let members := [taught (.ofDecimal false 1 (-1)), taught (.ofDecimal false 2 (-1)),
      taught (.ofDecimal true 10555 (-3))]
    ∃ sum : Decimal, value ⟨"s", .sum, .avg⟩ members.reverse = .ok sum.toCents.toDouble ∧
      sum.toCents.value = -10.26 := by
  intro taught members
  have hvalues : (members.filterMap (·.number? .avg)).map Double.shortestValue =
      [0.1, 0.2, -10.555] := by
    decide +kernel
  have hfinite : ∀ x ∈ members.filterMap (·.number? .avg), x.isFinite = true := by decide +kernel
  have hplaces : ∀ x ∈ members.filterMap (·.number? .avg), HasPlaces 3 x.shortestValue := by
    rw [← List.forall_mem_map (f := Double.shortestValue), hvalues]
    simp only [List.forall_mem_cons]
    exact ⟨⟨100, by norm_num⟩, ⟨200, by norm_num⟩, ⟨-10555, by norm_num⟩, nofun⟩
  have habs : (members.filterMap (·.number? .avg)).map (fun x => |x.shortestValue|) =
      [0.1, 0.2, -10.555].map fun q : ℚ => |q| := by
    rw [← hvalues, List.map_map]
    rfl
  let rule : ApplyRule := ⟨"s", .sum, .avg⟩
  have hrule : rule.aggregate = .sum := rfl
  obtain ⟨sum, -, hvalue, hround⟩ := value_sum_exact hrule (List.reverse_perm members).symm
    (by decide) (fun x hx => ⟨hfinite x hx, hplaces x hx⟩) (by rw [habs]; norm_num)
  refine ⟨sum, hvalue, hround.trans ?_⟩
  rw [hvalues]
  decide +kernel

end Aggregate

end CampusQuery
