import CampusQuery.Proofs.Answer.Cells
import CampusQuery.Proofs.Sorting
/-!
The order of an answer is a total preorder on rows, and rows that are shown alike in all of the
columns tie in it. Erasing repeated rows can therefore come before or after sorting.
-/

namespace CampusQuery

namespace SortOrder

instance : Std.TransCmp compareCells where
  eq_swap := by
    intro x y
    cases x <;> cases y <;> first
      | exact @Std.OrientedCmp.eq_swap _ Cell.compare _ _ _
      | rfl
  isLE_trans := by
    intro x y z hxy hyz
    cases x <;> cases y <;> cases z <;> first
      | exact @Std.TransCmp.isLE_trans _ Cell.compare _ _ _ _ hxy hyz
      | rfl
      | exact absurd hxy Bool.false_ne_true
      | exact absurd hyz Bool.false_ne_true

instance (keys : List String) : Std.TransCmp (compareKeys keys) := by
  induction keys with
  | nil => exact { eq_swap := rfl, isLE_trans := fun _ _ => rfl }
  | cons key keys ih =>
    have hkey : Std.TransCmp fun a b : Row => compareCells (a.get? key) (b.get? key) :=
      { eq_swap := Std.OrientedCmp.eq_swap, isLE_trans := Std.TransCmp.isLE_trans }
    exact inferInstanceAs (Std.TransCmp (compareLex _ (compareKeys keys)))

instance (order : SortOrder) : Std.TransCmp order.compareRows := by
  obtain ⟨direction, keys⟩ := order
  cases direction with
  | up => exact inferInstanceAs (Std.TransCmp (compareKeys keys))
  | down =>
    have hswap : compareRows ⟨.down, keys⟩ = fun a b => compareKeys keys b a := by
      funext a b
      exact Std.OrientedCmp.eq_swap.symm
    rw [hswap]
    exact Std.TransCmp.opposite

/-! ### Ties -/

/-- Under every key, both rows have nothing, or they have cells that compare as equal. -/
def Ties (keys : List String) (a b : Row) : Prop :=
  ∀ key ∈ keys, Option.Rel (fun x y => x.compare y = .eq) (a.get? key) (b.get? key)

theorem compareCells_eq_eq_iff {x y : Option Cell} :
    compareCells x y = .eq ↔ Option.Rel (fun x y => x.compare y = .eq) x y := by
  cases x <;> cases y <;> simp [compareCells]

theorem compareKeys_eq_eq_iff {keys : List String} {a b : Row} :
    compareKeys keys a b = .eq ↔ Ties keys a b := by
  unfold Ties
  induction keys with
  | nil => simp [compareKeys]
  | cons key keys ih =>
    rw [compareKeys, Ordering.then_eq_eq, compareCells_eq_eq_iff, ih, List.forall_mem_cons]

theorem compareRows_eq_eq_iff {order : SortOrder} {a b : Row} :
    order.compareRows a b = .eq ↔ Ties order.keys a b := by
  rw [← compareKeys_eq_eq_iff, compareRows]
  cases order.direction with
  | up => rfl
  | down => exact Ordering.swap_eq_eq

end SortOrder

namespace Row

/-- An answer's row has one value for each key. -/
theorem project_eq (columns : List Column) (row : Row) :
    project columns row = (columns.map Column.key).eraseDups.map fun key =>
      (key, ((row.get? key).map Cell.toJson).getD .null) := by
  have hentry : ∀ entry ∈ project columns row,
      (entry.1, ((row.get? entry.1).map Cell.toJson).getD .null) = entry := by
    intro entry hentry
    obtain ⟨c, -, rfl⟩ := List.mem_map.1 (mem_of_mem_assignAll hentry)
    rfl
  rw [← keys_project columns row, List.map_map]
  exact ((List.map_congr_left hentry).trans (List.map_id _)).symm

theorem project_eq_iff {columns : List Column} {a b : Row} (ha : a.Fits columns)
    (hb : b.Fits columns) :
    project columns a = project columns b ↔
      ∀ c ∈ columns, (a.get? c.key).map Cell.toClass = (b.get? c.key).map Cell.toClass := by
  simp only [project_eq, List.map_inj_left, List.mem_eraseDups, List.forall_mem_map,
    Prod.mk.injEq, true_and]
  refine forall₂_congr fun c hc => ?_
  obtain ⟨x, hx, hxfits⟩ := ha c hc
  obtain ⟨y, hy, hyfits⟩ := hb c hc
  rw [hx, hy]
  simpa using Cell.toJson_eq_iff hxfits hyfits

end Row

/-- Rows that repeat what an earlier one shows can be erased before or after sorting. -/
theorem Options.sorted_eraseDupsBy {options : Options} {rows : List Row}
    (hrows : ∀ row ∈ rows, row.Fits options.columns)
    (horder : ∀ order ∈ options.order, ∀ key ∈ order.keys, ∃ c ∈ options.columns, c.key = key) :
    options.sorted (rows.eraseDupsBy fun a b =>
        Row.project options.columns a == Row.project options.columns b) =
      (options.sorted rows).eraseDupsBy fun a b =>
        Row.project options.columns a == Row.project options.columns b := by
  unfold sorted
  cases h : options.order with
  | none => rfl
  | some order =>
    apply mergeSort_eraseDupsBy_isLE
    intro a ha b hb hsame
    refine SortOrder.compareRows_eq_eq_iff.2 fun key hkey => Cell.map_toClass_eq_iff.1 ?_
    obtain ⟨c, hc, rfl⟩ := horder order h key hkey
    exact ((Row.project_eq_iff (hrows a ha) (hrows b hb)).1 (eq_of_beq hsame).symm) c hc

end CampusQuery
