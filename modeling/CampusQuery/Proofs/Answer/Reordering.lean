import CampusQuery.Proofs.Answer.Cells
import CampusQuery.Proofs.Answer.Groups
import CampusQuery.Proofs.Sums
/-!
Groups and their values do not depend on the order of the records, except for sums that do: where
the decimals of a group have different partial sums in different orders, places may be lost, or a
sum may overflow, in the one order and not in the other.
-/

namespace CampusQuery

/-- What a row shows under its keys. -/
def Row.shown (row : Row) : List (String × Json) :=
  row.cells.map fun (key, cell) => (key, cell.toJson)

theorem Row.shown_insert (row : Row) (key : String) (cell : Cell) :
    (row.insert key cell).shown = assign key cell.toJson row.shown :=
  map_assign Cell.toJson key cell row.cells

theorem Row.shown_insert? (key : String) {row row' : Row} (hrow : row.shown = row'.shown)
    {cell cell' : Option Cell} (hcell : cell.map Cell.toClass = cell'.map Cell.toClass) :
    (row.insert? key cell).shown = (row'.insert? key cell').shown := by
  cases cell with
  | none =>
    cases cell' with
    | none => exact hrow
    | some cell' => cases hcell
  | some cell =>
    cases cell' with
    | none => cases hcell
    | some cell' =>
      rw [insert?_some, insert?_some, shown_insert, shown_insert, hrow,
        Cell.toJson_of_toClass_eq (Option.some.inj hcell)]

namespace Aggregate

variable {numbers numbers' : List Double} {members members' : List Record}

/-- An operation that goes by the places of the numbers has one result in any order. -/
theorem ordinal_foldl_perm {f : Double → Double → Double} {g : Int → Int → Int}
    (hcomm : ∀ i j k, g (g i j) k = g (g i k) j)
    (hf : ∀ x y, x.isNaN = false → (f x y).isNaN = false ∧
      (f x y).ordinal = if y.isNaN then x.ordinal else g x.ordinal y.ordinal)
    {start : Double} (hstart : start.isNaN = false) (hperm : numbers.Perm numbers') :
    (numbers.foldl f start).ordinal = (numbers'.foldl f start).ordinal := by
  let place (i : Int) (x : Double) : Int := if x.isNaN then i else g i x.ordinal
  have hplace {numbers : List Double} {start : Double} (hstart : start.isNaN = false) :
      (numbers.foldl f start).ordinal = numbers.foldl place start.ordinal := by
    induction numbers generalizing start with
    | nil => rfl
    | cons x numbers ih =>
      rw [List.foldl_cons, List.foldl_cons, ih (hf start x hstart).1, (hf start x hstart).2]
  have hright : RightCommutative place := by
    constructor
    intro i x y
    simp only [place]
    split_ifs
    · rfl
    · rfl
    · rfl
    · exact hcomm _ _ _
  rw [hplace hstart, hplace hstart]
  exact hperm.foldl_eq start.ordinal

theorem ordinal_foldl_max_perm (hperm : numbers.Perm numbers') :
    (numbers.foldl Double.max Double.negInfinity).ordinal =
      (numbers'.foldl Double.max Double.negInfinity).ordinal := by
  refine ordinal_foldl_perm (g := Max.max) max_right_comm (fun x y hx => ?_) (by decide) hperm
  cases hy : y.isNaN with
  | true => simp [Double.max, hx, hy]
  | false =>
    simp only [Double.max_eq_ite hx hy, Bool.false_eq_true, if_false]
    split_ifs with hlt
    · exact ⟨hy, (max_eq_right hlt.le).symm⟩
    · exact ⟨hx, (max_eq_left (not_lt.1 hlt)).symm⟩

theorem ordinal_foldl_min_perm (hperm : numbers.Perm numbers') :
    (numbers.foldl Double.min Double.posInfinity).ordinal =
      (numbers'.foldl Double.min Double.posInfinity).ordinal := by
  refine ordinal_foldl_perm (g := Min.min) min_right_comm (fun x y hx => ?_) (by decide) hperm
  cases hy : y.isNaN with
  | true => simp [Double.min, hx, hy]
  | false =>
    simp only [Double.min_eq_ite hx hy, Bool.false_eq_true, if_false]
    split_ifs with hlt
    · exact ⟨hy, (min_eq_right hlt.le).symm⟩
    · exact ⟨hx, (min_eq_left (not_lt.1 hlt)).symm⟩

theorem length_classes_perm (field : Field) (hperm : members.Perm members') :
    (classes field members).length = (classes field members').length := by
  rw [classes_eq, classes_eq]
  exact (eraseDups_perm (hperm.filterMap _)).length_eq

/-- Both values fail, or they are shown alike. -/
theorem value_perm {rule : ApplyRule} (hperm : members.Perm members')
    (hfree : rule.aggregate = .sum ∨ rule.aggregate = .avg →
      OrderFree (members.filterMap (·.number? rule.field))) :
    Outcome.Alike (fun x y => (Cell.number x).toJson = (Cell.number y).toJson)
      (value rule members) (value rule members') := by
  have hnumbers := hperm.filterMap (·.number? rule.field)
  unfold value
  cases hrule : rule.aggregate with
  | max => exact .ok (Cell.toJson_number_of_ordinal_eq (ordinal_foldl_max_perm hnumbers))
  | min => exact .ok (Cell.toJson_number_of_ordinal_eq (ordinal_foldl_min_perm hnumbers))
  | sum =>
    apply (exactSum_perm hnumbers (hfree (.inl hrule))).bind
    intro sum sum' hsum
    exact .ok (by rw [hsum.toDouble_toCents])
  | avg =>
    apply (exactSum_perm hnumbers (hfree (.inr hrule))).bind
    intro sum sum' hsum
    rw [hperm.isEmpty_eq, hperm.length_eq]
    split_ifs
    · exact .error _ _
    · exact .ok (by rw [(hsum.divide _).toDouble_toCents])
  | count => exact .ok (by rw [length_classes_perm rule.field hperm])

end Aggregate

namespace Transform

variable {t : Transform} {records records' : List Record}

/-- There is one group for each key that occurs. -/
theorem groups_eq_map_keys (t : Transform) (records : List Record) :
    t.groups records = (records.map t.groupKey).eraseDups.map fun key =>
      records.filter (t.groupKey · == key) := by
  rw [groups_eq, distinctBy_eq_eraseDupsBy, List.eraseDups, eraseDupsBy_map, List.map_map]
  rfl

/-- Records with the same key are shown alike in the fields that they are grouped by. -/
theorem shown_foldl_insert? {group : List GroupKey} {r r' : Record}
    (h : ∀ g ∈ group, (r.cell? g.field).map Cell.toClass = (r'.cell? g.field).map Cell.toClass)
    {row row' : Row} (hrow : row.shown = row'.shown) :
    (group.foldl (fun row g => row.insert? g.key (r.cell? g.field)) row).shown =
      (group.foldl (fun row g => row.insert? g.key (r'.cell? g.field)) row').shown := by
  induction group generalizing row row' with
  | nil => exact hrow
  | cons g group ih =>
    rw [List.forall_mem_cons] at h
    exact ih h.2 (Row.shown_insert? g.key hrow h.1)

/-- The row of a group, whatever the order of its members. -/
theorem groupRow_perm {members members' : List Record} (hperm : members.Perm members')
    {key : List (Option Cell.Class)} (hkey : ∀ r ∈ members, t.groupKey r = key)
    (hfree : ∀ rule ∈ t.apply, rule.aggregate = .sum ∨ rule.aggregate = .avg →
      Aggregate.OrderFree (members.filterMap (·.number? rule.field))) :
    Outcome.Alike (fun row row' => row.shown = row'.shown) (t.groupRow members)
      (t.groupRow members') := by
  apply Outcome.Alike.foldlM
  · cases members with
    | nil => rw [hperm.nil_eq]
    | cons r members =>
      cases members' with
      | nil => cases hperm.eq_nil
      | cons r' members' =>
        apply shown_foldl_insert? _ rfl
        have hkeys : t.groupKey r = t.groupKey r' :=
          (hkey r List.mem_cons_self).trans
            (hkey r' (hperm.mem_iff.2 List.mem_cons_self)).symm
        exact List.map_inj_left.1 hkeys
  · intro rule hrule row row' hrow
    apply (Aggregate.value_perm hperm (hfree rule hrule)).bind
    intro x y hxy
    exact .ok (by rw [Row.shown_insert, Row.shown_insert, hxy, hrow])

/-- Grouping does not depend on the order of the records where no sum does. -/
theorem rows_perm (hperm : records.Perm records')
    (hfree : ∀ members ∈ t.groups records, ∀ rule ∈ t.apply,
      rule.aggregate = .sum ∨ rule.aggregate = .avg →
        Aggregate.OrderFree (members.filterMap (·.number? rule.field))) :
    Outcome.Alike (fun rows rows' => (rows.map Row.shown).Perm (rows'.map Row.shown))
      (t.rows records) (t.rows records') := by
  rw [groups_eq_map_keys] at hfree
  rw [rows, rows, groups_eq_map_keys, groups_eq_map_keys, List.mapM_map, List.mapM_map]
  apply Outcome.Alike.mapM_perm (eraseDups_perm (hperm.map _))
  intro key hkey
  exact groupRow_perm (hperm.filter _) (fun r hr => eq_of_beq (List.mem_filter.1 hr).2)
    (hfree _ (List.mem_map_of_mem hkey))

/-- Tenths, and zeros of both signs, from front to back and from back to front. -/
theorem rows_perm_of_tenths :
    let taught (dept : String) (avg : Double) : Record :=
      .ofSection ⟨dept, "", "", "", "", .zero, avg, .zero, .zero, .zero⟩
    let records := [taught "cpsc" ⟨0x3FB999999999999A⟩, taught "math" ⟨0x8000000000000000⟩,
      taught "cpsc" ⟨0x3FC999999999999A⟩, taught "math" .zero]
    let t : Transform := ⟨[⟨"ubc_dept", .dept⟩],
      [⟨"s", .sum, .avg⟩, ⟨"a", .avg, .avg⟩, ⟨"m", .max, .avg⟩, ⟨"n", .count, .avg⟩]⟩
    ∃ rows rows', t.rows records = .ok rows ∧ t.rows records.reverse = .ok rows' ∧
      (rows.map Row.shown).Perm (rows'.map Row.shown) := by
  intro taught records t
  have hgroups : t.groups records = [[taught "cpsc" ⟨0x3FB999999999999A⟩,
      taught "cpsc" ⟨0x3FC999999999999A⟩], [taught "math" ⟨0x8000000000000000⟩,
      taught "math" .zero]] := by
    rw [groups_eq_map_keys]
    decide
  have hok : (t.rows records).isOk = true := by
    rw [rows, hgroups]
    decide +kernel
  have hfields : ∀ rule ∈ t.apply, rule.field = .avg := by decide
  have hfree : ∀ members ∈ t.groups records,
      Aggregate.OrderFree (members.filterMap (·.number? .avg)) := by
    rw [hgroups]
    simp only [List.forall_mem_cons]
    exact ⟨.inr (Decimal.AddUp.of_nonneg (by decide +kernel) (by decide +kernel)),
      .inr (Decimal.AddUp.of_nonneg (by decide +kernel) (by decide +kernel)), nofun⟩
  have halike := rows_perm (List.reverse_perm records).symm fun members hmembers rule hrule _ =>
    hfields rule hrule ▸ hfree members hmembers
  cases h : t.rows records with
  | error fault =>
    rw [h] at hok
    cases hok
  | ok rows =>
    rw [h] at halike
    obtain ⟨rows', hrows', hperm⟩ := halike.of_ok_left
    exact ⟨rows, rows', rfl, hrows', hperm⟩

/-- Large numbers that cancel take smaller ones with them, or overflow, in one order only. -/
theorem rows_depend_on_order :
    let taught (avg : Double) : Record :=
      .ofSection ⟨"cpsc", "", "", "", "", .zero, avg, .zero, .zero, .zero⟩
    let large : Double := ⟨0x45EC45D492766062⟩
    let opposite : Double := ⟨0xC5EC45D492766062⟩
    let quarter : Double := ⟨0x3FD0000000000000⟩
    let j : Json := .object [("WHERE", .object []),
      ("OPTIONS", .object [("COLUMNS", .array [.string "ubc_dept", .string "s"])]),
      ("TRANSFORMATIONS", .object [("GROUP", .array [.string "ubc_dept"]),
        ("APPLY", .array [.object [("s", .object [("SUM", .string "ubc_avg")])]])])]
    let row (s : Json) : List (String × Json) := [("ubc_dept", .string "cpsc"), ("s", s)]
    ∃ q t, Query.ofJson j = .ok q ∧ q.transform = some t ∧
      (t.rows [taught large, taught quarter, taught opposite]).map (·.map Row.shown) =
        .ok [row (.int 0)] ∧
      (t.rows [taught large, taught opposite, taught quarter]).map (·.map Row.shown) =
        .ok [row (.number (.double quarter))] ∧
      t.rows [taught large, taught large, taught opposite] = .error .sumOverflow ∧
      (t.rows [taught large, taught opposite, taught large]).map (·.map Row.shown) =
        .ok [row (.number (.double large))] := by
  intro taught large opposite quarter j row
  let t : Transform := ⟨[⟨"ubc_dept", .dept⟩], [⟨"s", .sum, .avg⟩]⟩
  have hquery : Query.ofJson j = .ok ⟨"ubc", .sections, .all, some t,
      ⟨[.field "ubc_dept" .dept, .applied "s"], none⟩⟩ := rfl
  refine ⟨_, t, hquery, rfl, ?_⟩
  simp only [rows, groups_eq_map_keys]
  decide +kernel

end Transform

end CampusQuery
