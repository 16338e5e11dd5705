import CampusQuery.Proofs.Answer.Rows
import CampusQuery.Proofs.Double.Value
/-!
What the values of an answer tell of the cells: two cells that fit in one column are shown alike
just if they are of one class, and cells of one class compare as equal.
-/

namespace CampusQuery

namespace Cell

variable {x y z : Cell} {numeric : Bool}

theorem compare_of_toClass_eq (h : x.toClass = y.toClass) : x.compare y = .eq := by
  cases x <;> cases y <;> simp_all [toClass, compare]

/-- Cells are of one class just if they compare as equal. -/
theorem compare_eq_eq_iff : x.compare y = .eq ↔ x.toClass = y.toClass := by
  refine ⟨fun h => ?_, compare_of_toClass_eq⟩
  cases x with
  | number x =>
    cases y with
    | number y => exact congrArg Class.number (Std.LawfulEqOrd.eq_of_compare h)
    | text t => cases h
  | text s =>
    cases y with
    | number y => cases h
    | text t => exact congrArg Class.text (Std.LawfulEqOrd.eq_of_compare h)

/-- Cells are of one class just if they compare as equal, and a missing cell is like no other. -/
theorem map_toClass_eq_iff {x y : Option Cell} :
    x.map toClass = y.map toClass ↔ Option.Rel (fun x y => x.compare y = .eq) x y := by
  cases x <;> cases y <;> simp [compare_eq_eq_iff]

instance : Std.TransCmp compare where
  eq_swap := by
    intro x y
    cases x <;> cases y <;> first
      | exact Std.OrientedOrd.eq_swap
      | rfl
  isLE_trans := by
    intro x y z hxy hyz
    cases x <;> cases y <;> cases z <;> first
      | exact Std.TransOrd.isLE_trans hxy hyz
      | rfl
      | exact absurd hxy Bool.false_ne_true
      | exact absurd hyz Bool.false_ne_true

/-- A finite number is shown as the whole number that it is, or as it is. -/
theorem toJson_number {x : Double} (hx : x.isFinite = true) :
    (∃ n, x.toInt? = some n ∧ (number x).toJson = .int n) ∨
      (number x).toJson = .number (.double x) := by
  have hdouble : Json.ofDouble x = .number (.double x) := by rw [Json.ofDouble, if_pos hx]
  simp only [toJson, hdouble]
  cases x.toInt? with
  | none => exact .inr rfl
  | some n =>
    by_cases hn : n.natAbs < 0x8000000000000000
    · exact .inl ⟨n, rfl, if_pos hn⟩
    · exact .inr (if_neg hn)

theorem toJson_number_of_ordinal_eq {x y : Double} (h : x.ordinal = y.ordinal) :
    (number x).toJson = (number y).toJson := by
  rcases Double.eq_of_ordinal_eq h with rfl | ⟨hx, hy⟩
  · rfl
  · simp only [toJson, Double.toInt?_of_magnitude_eq_zero hx,
      Double.toInt?_of_magnitude_eq_zero hy]
    rfl

/-- Cells of one class are shown alike. -/
theorem toJson_of_toClass_eq (h : x.toClass = y.toClass) : x.toJson = y.toJson := by
  cases x with
  | text s =>
    cases y with
    | text t =>
      cases h
      rfl
    | number y => cases h
  | number x =>
    cases y with
    | text t => cases h
    | number y => exact toJson_number_of_ordinal_eq (Class.number.inj h)

theorem toJson_number_eq_iff {x y : Double} (hx : x.isFinite = true) (hy : y.isFinite = true) :
    (number x).toJson = (number y).toJson ↔ x.ordinal = y.ordinal := by
  refine ⟨fun h => ?_, toJson_number_of_ordinal_eq⟩
  rcases toJson_number hx with ⟨n, hn, hx⟩ | hx <;>
    rcases toJson_number hy with ⟨m, hm, hy⟩ | hy <;> rw [hx, hy] at h <;> cases h
  · rw [Double.ordinal_of_toInt? hn, Double.ordinal_of_toInt? hm]
  · rfl

/-- Cells of one column are shown alike just if they are of one class. -/
theorem toJson_eq_iff (hx : x.Fits numeric) (hy : y.Fits numeric) :
    x.toJson = y.toJson ↔ x.toClass = y.toClass := by
  cases x with
  | text s =>
    cases y with
    | text t => simp [toJson, toClass]
    | number y => exact absurd (hx.symm.trans hy.1) Bool.false_ne_true
  | number x =>
    cases y with
    | text t => exact absurd (hy.symm.trans hx.1) Bool.false_ne_true
    | number y => simp only [toJson_number_eq_iff hx.2 hy.2, toClass, Class.number.injEq]

end Cell

end CampusQuery
