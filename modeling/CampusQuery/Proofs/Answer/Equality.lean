import CampusQuery.Proofs.Answer.Cells
/-!
What it is for cells to be equal, or one to be below another.

Sorting compares the patterns of numbers in their total order, grouping takes the patterns
themselves, both without the sign of a zero; conditions compare numbers; and an answer shows values.
All of these agree, and they agree with the values of the numbers.
-/

namespace CampusQuery

namespace Double

variable {x y : Double}

/-- The pattern, and for a zero the one without a sign. -/
def unsignedZero (x : Double) : Double :=
  if x.eq zero then zero else x

/-- The place in the total order of patterns, in which the negative zero is below the other: the
pattern read as a signed number, the order of the negative ones being turned round. -/
def totalPlace (x : Double) : Int :=
  if x.negative then -(x.magnitude : Int) - 1 else x.magnitude

theorem eq_zero_iff : x.eq zero = true ↔ x.magnitude = 0 := by
  have hordinal : x.ordinal = zero.ordinal ↔ x.magnitude = 0 := by
    rw [show zero.ordinal = 0 by decide, ordinal]
    split_ifs <;> omega
  have hzero : zero.isNaN = false := by decide
  rw [eq, hzero, Bool.and_eq_true, decide_eq_true_eq, hordinal]
  refine and_iff_right_of_imp fun h => ?_
  simp [isNaN, h]

/-- Without the sign of a zero, the patterns in their total order are in the order of the places. -/
theorem totalPlace_unsignedZero (x : Double) :
    x.unsignedZero.totalPlace = if x.ordinal < 0 then x.ordinal - 1 else x.ordinal := by
  unfold unsignedZero
  by_cases hzero : x.magnitude = 0
  · rw [if_pos (eq_zero_iff.2 hzero), ordinal, hzero, Nat.cast_zero, neg_zero, ite_self]
    decide
  · rw [if_neg (mt eq_zero_iff.1 hzero), totalPlace, ordinal]
    split_ifs <;> omega

theorem compare_totalPlace (x y : Double) :
    compare x.unsignedZero.totalPlace y.unsignedZero.totalPlace = compare x.ordinal y.ordinal := by
  rw [totalPlace_unsignedZero, totalPlace_unsignedZero]
  rcases lt_trichotomy x.ordinal y.ordinal with h | h | h
  · rw [Int.compare_eq_lt.2 h, Int.compare_eq_lt]
    split_ifs <;> omega
  · rw [h, Std.ReflOrd.compare_self, Std.ReflOrd.compare_self]
  · rw [Int.compare_eq_gt.2 h, Int.compare_eq_gt]
    split_ifs <;> omega

theorem unsignedZero_eq_iff : x.unsignedZero = y.unsignedZero ↔ x.ordinal = y.ordinal := by
  constructor
  · intro h
    rw [← compare_eq_iff_eq, ← compare_totalPlace, h, compare_eq_iff_eq]
  · intro h
    rcases eq_of_ordinal_eq h with rfl | ⟨hx, hy⟩
    · rfl
    · rw [unsignedZero, unsignedZero, if_pos (eq_zero_iff.2 hx), if_pos (eq_zero_iff.2 hy)]

end Double

/-- The outcome of comparing that a comparison asks for. -/
def Comparator.outcome : Comparator → Ordering
  | lt => .lt
  | gt => .gt
  | eq => .eq

theorem Comparator.holds_iff {x y : Double} (hx : x.isNaN = false) (hy : y.isNaN = false)
    (op : Comparator) : op.holds x y = true ↔ compare x.ordinal y.ordinal = op.outcome := by
  cases op with
  | lt => simp [holds, outcome, Double.lt, hx, hy, Int.compare_eq_lt]
  | gt => simp [holds, outcome, Double.lt, hx, hy, Int.compare_eq_gt]
  | eq => simp [holds, outcome, Double.eq, hx, hy]

/-- The number that stands in a JSON text. -/
def Number.value : Number → ℚ
  | .integer n => n
  | .double x => x.value

namespace Cell

/-- The cell, a zero without its sign. -/
def unsignedZero : Cell → Cell
  | number x => number x.unsignedZero
  | text s => text s

theorem unsignedZero_eq_iff {c d : Cell} :
    c.unsignedZero = d.unsignedZero ↔ c.toClass = d.toClass := by
  cases c <;> cases d <;> simp [unsignedZero, toClass, Double.unsignedZero_eq_iff]

/-- A finite number is shown as the number that it is, and as a whole number if it is one and below
`2 ^ 63` in size. -/
theorem toJson_number_value {x : Double} (hx : x.isFinite = true) :
    ∃ n, (number x).toJson = .number n ∧ n.value = x.value ∧
      ((∃ i, n = .integer i) ↔ (∃ i : Int, x.value = i) ∧ |x.value| < 2 ^ 63) := by
  have hdouble : Json.ofDouble x = .number (.double x) := if_pos hx
  have hbound {i : Int} (hi : x.value = i) :
      |x.value| < 2 ^ 63 ↔ i.natAbs < 0x8000000000000000 := by
    have hpow : (2 : ℚ) ^ 63 = (0x8000000000000000 : Nat) := by norm_num
    rw [hi, ← Int.cast_abs, ← Nat.cast_natAbs, hpow, Nat.cast_lt]
  simp only [toJson, hdouble]
  cases hint : x.toInt? with
  | none =>
    refine ⟨.double x, rfl, rfl, iff_of_false (by simp) ?_⟩
    rintro ⟨⟨i, hi⟩, -⟩
    rw [(Double.toInt?_eq_some_iff hx).2 hi] at hint
    cases hint
  | some i =>
    have hi := (Double.toInt?_eq_some_iff hx).1 hint
    by_cases hlt : i.natAbs < 0x8000000000000000
    · exact ⟨.integer i, if_pos hlt, hi.symm, iff_of_true ⟨i, rfl⟩ ⟨⟨i, hi⟩, (hbound hi).2 hlt⟩⟩
    · refine ⟨.double x, if_neg hlt, rfl, iff_of_false (by simp) ?_⟩
      exact fun hsize => hlt ((hbound hi).1 hsize.2)

theorem toJson_number_ne_text {x : Double} (hx : x.isFinite = true) (t : String) :
    (number x).toJson ≠ (text t).toJson := by
  obtain ⟨n, hn, -⟩ := toJson_number_value hx
  rw [hn]
  exact nofun

/-- Finite numbers and texts are shown alike just if they compare as equal. -/
theorem toJson_eq_iff_compare {c d : Cell} {numeric numeric' : Bool} (hc : c.Fits numeric)
    (hd : d.Fits numeric') : c.toJson = d.toJson ↔ c.compare d = .eq := by
  cases c with
  | number x =>
    cases d with
    | number y =>
      have hd : (number y).Fits numeric := ⟨hc.1, hd.2⟩
      exact (toJson_eq_iff hc hd).trans compare_eq_eq_iff.symm
    | text t => exact iff_of_false (toJson_number_ne_text hc.2 t) nofun
  | text s =>
    cases d with
    | number y => exact iff_of_false (toJson_number_ne_text hd.2 s).symm nofun
    | text t =>
      have hd : (text t).Fits numeric := hc
      exact (toJson_eq_iff hc hd).trans compare_eq_eq_iff.symm

/-- Cells are alike for grouping just if they compare as equal, whether their classes are taken or
their patterns without the sign of a zero; and comparing numbers is comparing these patterns in
their total order. On numbers that are no NaN, conditions say what comparing does, and on finite
numbers it compares the values. Finite numbers and texts are shown alike just if they compare as
equal, a number with its value. -/
theorem equalities_agree :
    (∀ c d : Cell, (c.toClass = d.toClass ↔ c.compare d = .eq) ∧
      (c.unsignedZero = d.unsignedZero ↔ c.compare d = .eq)) ∧
    (∀ x y : Double, (number x).compare (number y) =
      Ord.compare x.unsignedZero.totalPlace y.unsignedZero.totalPlace) ∧
    (∀ x y : Double, x.isNaN = false → y.isNaN = false → ∀ op : Comparator,
      op.holds x y = true ↔ (number x).compare (number y) = op.outcome) ∧
    (∀ x y : Double, x.isFinite = true → y.isFinite = true →
      (number x).compare (number y) = Ord.compare x.value y.value) ∧
    (∀ (c d : Cell) (numeric numeric' : Bool), c.Fits numeric → d.Fits numeric' →
      (c.toJson = d.toJson ↔ c.compare d = .eq)) ∧
    ∀ x : Double, x.isFinite = true → ∃ n, (number x).toJson = .number n ∧ n.value = x.value ∧
      ((∃ i, n = .integer i) ↔ (∃ i : Int, x.value = i) ∧ |x.value| < 2 ^ 63) := by
  refine ⟨fun c d => ⟨compare_eq_eq_iff.symm, ?_⟩, fun x y => (Double.compare_totalPlace x y).symm,
    fun x y hx hy op => op.holds_iff hx hy, fun x y _ _ => Double.compare_ordinal x y,
    fun c d _ _ hc hd => toJson_eq_iff_compare hc hd, fun x hx => toJson_number_value hx⟩
  rw [unsignedZero_eq_iff, compare_eq_eq_iff]

/-- The zeros are one number, and `2 ^ 63` is no longer shown as a whole number. -/
theorem equalities_agree_of_limits :
    let negZero : Double := ⟨0x8000000000000000⟩
    let limit : Double := ⟨0x43E0000000000000⟩
    Comparator.eq.holds negZero .zero = true ∧
      Ord.compare negZero.value Double.zero.value = .eq ∧
      (number negZero).toJson = (number .zero).toJson ∧
      (number limit).toJson ≠ (text "9223372036854775808").toJson ∧
      ∃ n, (number limit).toJson = .number n ∧ n.value = 2 ^ 63 ∧ ¬∃ i, n = .integer i := by
  intro negZero limit
  obtain ⟨-, -, hholds, hvalue, hjson, hnumber⟩ := equalities_agree
  have hzeros : (number negZero).compare (number .zero) = .eq := by decide
  have hfits (x : Double) (hx : x.isFinite = true) : (number x).Fits true := ⟨rfl, hx⟩
  obtain ⟨n, hn, hsame, hinteger⟩ := hnumber limit (by decide)
  have hlimit : limit.value = 2 ^ 63 := by
    have hint : limit.toInt? = some 0x8000000000000000 := by decide
    rw [(Double.toInt?_eq_some_iff (by decide)).1 hint]
    norm_num
  refine ⟨(hholds _ _ (by decide) (by decide) .eq).2 hzeros, ?_, ?_, ?_, n, hn, hsame.trans hlimit,
    ?_⟩
  · exact (hvalue negZero .zero (by decide) (by decide)).symm.trans hzeros
  · exact (hjson _ _ _ _ (hfits negZero (by decide)) (hfits .zero (by decide))).2 hzeros
  · exact mt (hjson _ (text _) true false (hfits limit (by decide)) rfl).1 (by decide)
  · rw [hinteger, hlimit]
    exact fun h => absurd h.2 (by norm_num)

end Cell

end CampusQuery
