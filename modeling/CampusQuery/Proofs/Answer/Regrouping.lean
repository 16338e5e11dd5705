import CampusQuery.Proofs.Answer.Order
import CampusQuery.Proofs.Answer.Typing
/-!
Grouping by all columns, without any computed value, leaves the answer as it is except that a row
is not repeated.
-/

namespace CampusQuery

/-- The key of a column that is a field. -/
def Column.groupKey? : Column → Option GroupKey
  | .field key f => some ⟨key, f⟩
  | .applied _ => none

namespace Transform

/-- The grouping by columns. -/
def ofColumns (columns : List Column) : Transform :=
  ⟨columns.filterMap Column.groupKey?, []⟩

/-- The row of a group is the row of its first record. -/
theorem groupRow_ofColumns (columns : List Column) (r : Record) (others : List Record) :
    (ofColumns columns).groupRow (r :: others) = .ok (Row.ofRecord columns r) := by
  have hcells : (columns.filterMap Column.groupKey?).foldl
      (fun row g => row.insert? g.key (r.cell? g.field)) Row.empty = Row.ofRecord columns r := by
    rw [List.foldl_filterMap]
    unfold Row.ofRecord
    congr 1
    funext row c
    cases c <;> rfl
  rw [← hcells]
  rfl

theorem rows_ofColumns (columns : List Column) (records : List Record) :
    (ofColumns columns).rows records =
      .ok ((distinctBy (ofColumns columns).groupKey records).map (Row.ofRecord columns)) := by
  rw [rows, groups_eq, List.mapM_map]
  apply Outcome.mapM_eq_ok_map
  intro r hr
  rw [distinctBy_eq_eraseDupsBy] at hr
  have hfirst := find?_of_mem_eraseDupsBy hr
  rw [← List.head?_filter, List.head?_eq_some_iff] at hfirst
  obtain ⟨others, hothers⟩ := hfirst
  rw [Function.comp_apply, hothers, groupRow_ofColumns]

theorem mem_group_ofColumns {columns : List Column} {g : GroupKey} :
    g ∈ (ofColumns columns).group ↔ .field g.key g.field ∈ columns := by
  rw [ofColumns, List.mem_filterMap]
  constructor
  · intro h
    obtain ⟨c, hc, hkey⟩ := h
    cases c with
    | field key f =>
      cases hkey
      exact hc
    | applied key => cases hkey
  · intro h
    exact ⟨_, h, rfl⟩

section

variable {subject : Subject} {columns : List Column}
  (hcolumns : ∀ c ∈ columns, c.Available subject none)
include hcolumns

/-- Every column of records is grouped by. -/
theorem map_group_ofColumns {β : Type} {f : GroupKey → β} {g : Column → β}
    (h : ∀ key field, f ⟨key, field⟩ = g (.field key field)) :
    (ofColumns columns).group.map f = columns.map g := by
  rw [ofColumns, List.map_filterMap, ← List.filterMap_eq_map']
  apply List.filterMap_congr
  intro c hc
  have havailable := hcolumns c hc
  cases c with
  | field key field => exact congrArg some (h key field)
  | applied key => exact havailable.elim

theorem groupKey_ofColumns (r : Record) :
    (ofColumns columns).groupKey r = columns.map fun c => (c.cell? r).map Cell.toClass :=
  map_group_ofColumns hcolumns fun _ _ => rfl

/-- Records are in one group just if their rows are shown alike. -/
theorem groupKey_ofColumns_eq_iff {r r' : Record} (hr : r.kind = subject.kind ∧ r.Finite)
    (hr' : r'.kind = subject.kind ∧ r'.Finite) :
    (ofColumns columns).groupKey r = (ofColumns columns).groupKey r' ↔
      Row.project columns (Row.ofRecord columns r) =
        Row.project columns (Row.ofRecord columns r') := by
  rw [Row.project_eq_iff (Row.fits_ofRecord hcolumns hr.1 hr.2)
    (Row.fits_ofRecord hcolumns hr'.1 hr'.2), groupKey_ofColumns hcolumns,
    groupKey_ofColumns hcolumns, List.map_inj_left]
  refine forall₂_congr fun c hc => ?_
  rw [Row.get?_ofRecord hcolumns hr.1 hc, Row.get?_ofRecord hcolumns hr'.1 hc]

/-- The rows of the groups are the rows of the records without repetitions. -/
theorem map_distinctBy_groupKey {records : List Record}
    (hrecords : ∀ r ∈ records, r.kind = subject.kind ∧ r.Finite) :
    (distinctBy (ofColumns columns).groupKey records).map (Row.ofRecord columns) =
      (records.map (Row.ofRecord columns)).eraseDupsBy fun a b =>
        Row.project columns a == Row.project columns b := by
  rw [eraseDupsBy_map, distinctBy_eq_eraseDupsBy]
  congr 1
  apply eraseDupsBy_congr
  intro r hr r' hr'
  rw [Bool.eq_iff_iff, beq_iff_eq, beq_iff_eq]
  exact groupKey_ofColumns_eq_iff hcolumns (hrecords r' hr') (hrecords r hr)

end

end Transform

namespace Query

variable {q : Query} {members : List (String × Json)}

/-- The query with a grouping by the columns. -/
def regrouped (q : Query) : Query :=
  { q with transform := some (.ofColumns q.options.columns) }

/-- A query with a grouping by the given columns, written behind its other parts. -/
def withGroup (columns : Json) (members : List (String × Json)) : Json :=
  .object (members ++
    [("TRANSFORMATIONS", .object [("GROUP", columns), ("APPLY", .array [])])])

theorem Written.regrouped (hq : q.Written (.object members)) (ht : q.transform = none) :
    ∃ parts columns, Json.get? "OPTIONS" members = some (.object parts) ∧
      Json.get? "COLUMNS" parts = some columns ∧
      q.regrouped.Written (withGroup columns members) := by
  have havailable := hq.available ht
  obtain ⟨_, heq, honly, hcondition, htransform, parts, hparts, hoptions⟩ := hq
  cases heq
  have hnone : Json.get? "TRANSFORMATIONS" members = none := by
    rw [ht] at htransform
    cases h : Json.get? "TRANSFORMATIONS" members with
    | none => rfl
    | some j =>
      rw [h] at htransform
      cases htransform
  have hget (key : String) (grouping : Json) :
      Json.get? key (members ++ [("TRANSFORMATIONS", grouping)]) =
        (Json.get? key members).or (Json.get? key [("TRANSFORMATIONS", grouping)]) :=
    List.lookup_append
  refine ⟨parts, _, hparts, hoptions.columns, _, rfl, ?_, ?_, ?_, parts, ?_, ?_⟩
  · simpa [or_imp, forall_and] using honly
  · obtain ⟨condition, hwhere, hwritten⟩ := hcondition
    exact ⟨condition, by rw [hget, hwhere, Option.some_or], hwritten⟩
  · rw [hget, hnone, Option.none_or]
    refine .some ⟨_, rfl, rfl, ?_, ?_, ?_, ⟨[], rfl, .nil⟩, List.nodup_nil⟩
    · exact congrArg (fun keys => some (Json.array keys))
        (Transform.map_group_ofColumns havailable fun _ _ => rfl).symm
    · intro hnil
      have hkeys : (Transform.ofColumns q.options.columns).group.map GroupKey.key =
          q.options.columns.map Column.key :=
        Transform.map_group_ofColumns havailable fun _ _ => rfl
      rw [hnil] at hkeys
      exact hoptions.columns_ne_nil (List.map_eq_nil_iff.1 hkeys.symm)
    · exact fun g hg => havailable _ (Transform.mem_group_ofColumns.1 hg)
  · rw [hget, hparts, Option.some_or]
  · refine ⟨hoptions.only, hoptions.columns, hoptions.columns_ne_nil, ?_, hoptions.order⟩
    intro c hc
    cases c with
    | field key f => exact Transform.mem_group_ofColumns.2 hc
    | applied key => exact (havailable _ hc).elim

theorem present_eq_ok {options : Options} {limit : Nat} {rows : List Row}
    (h : rows.length ≤ limit) :
    options.present limit rows = .ok ((options.sorted rows).map (Row.project options.columns)) := by
  rw [Options.present, checkLimit, if_neg (by omega)]
  rfl

theorem execute_regrouped {j : Json} (hq : q.Written j) (ht : q.transform = none) {limit : Nat}
    {records : List Record} (hrecords : ∀ r ∈ records, r.kind = q.kind ∧ r.Finite)
    (hlimit : (q.filter.matching records).length ≤ limit) :
    ∃ answer, q.execute limit records = .ok answer ∧
      q.regrouped.execute limit records = .ok answer.eraseDups := by
  have havailable := hq.available ht
  have hmatched : ∀ r ∈ q.filter.matching records, r.kind = q.kind ∧ r.Finite :=
    fun r hr => hrecords r ((Filter.matching_sublist q.filter records).subset hr)
  have hrows : q.rows limit records =
      .ok ((q.filter.matching records).map (Row.ofRecord q.options.columns)) := by
    rw [rows, ht, checkLimit, if_neg (by omega)]
    rfl
  have hrows' : q.regrouped.rows limit records = .ok
      (((q.filter.matching records).map (Row.ofRecord q.options.columns)).eraseDupsBy fun a b =>
        Row.project q.options.columns a == Row.project q.options.columns b) := by
    rw [← Transform.map_distinctBy_groupKey havailable hmatched]
    exact Transform.rows_ofColumns _ _
  have hfits : ∀ row ∈ (q.filter.matching records).map (Row.ofRecord q.options.columns),
      row.Fits q.options.columns := by
    rw [List.forall_mem_map]
    exact fun r hr => Row.fits_ofRecord havailable (hmatched r hr).1 (hmatched r hr).2
  have hlength := List.length_map (Row.ofRecord q.options.columns) ▸ hlimit
  generalize (q.filter.matching records).map (Row.ofRecord q.options.columns) = plain at *
  refine ⟨_, by rw [execute, hrows, Outcome.ok_bind, present_eq_ok hlength], ?_⟩
  rw [execute, hrows', Outcome.ok_bind, present_eq_ok]
  · rw [List.eraseDups, eraseDupsBy_map, ← Options.sorted_eraseDupsBy hfits]
    · rfl
    · exact fun order horder key hkey => hq.mem_columns_of_mem_order horder hkey
  · exact (eraseDupsBy_sublist plain).length_le.trans hlength

/-- A query without grouping can be grouped by its columns. The answer is then the same but for
rows that repeat an earlier one, which are left out. -/
theorem execute_withGroup (hq : ofJson (.object members) = .ok q) (ht : q.transform = none) :
    ∃ parts columns q', Json.get? "OPTIONS" members = some (.object parts) ∧
      Json.get? "COLUMNS" parts = some columns ∧ ofJson (withGroup columns members) = .ok q' ∧
      ∀ limit records, (∀ r ∈ records, r.kind = q.kind ∧ r.Finite) →
        (q.filter.matching records).length ≤ limit →
        ∃ answer, q.execute limit records = .ok answer ∧
          q'.execute limit records = .ok answer.eraseDups := by
  have hwritten := written_of_ofJson hq
  obtain ⟨parts, columns, hparts, hcolumns, hq'⟩ := hwritten.regrouped ht
  exact ⟨parts, columns, q.regrouped, hparts, hcolumns, ofJson_of_written hq',
    fun limit records hrecords hlimit => execute_regrouped hwritten ht hrecords hlimit⟩

/-- A zero with a sign is shown like the other zero, and a repeated column makes no difference. -/
theorem execute_withGroup_of_zeros :
    let columns : Json := .array [.string "ubc_avg", .string "ubc_dept", .string "ubc_avg"]
    let members : List (String × Json) := [("WHERE", .object []), ("OPTIONS", .object
      [("COLUMNS", columns), ("ORDER", .object
        [("dir", .string "DOWN"), ("keys", .array [.string "ubc_dept"])])])]
    let taught (dept : String) (avg : Double) : Record :=
      .ofSection ⟨dept, "", "", "", "", .zero, avg, .zero, .zero, .zero⟩
    let row (dept : String) (avg : Json) : OutputRow :=
      [("ubc_avg", avg), ("ubc_dept", .string dept)]
    let records := [taught "math" .zero, taught "cpsc" .zero, taught "cpsc" ⟨0x3FF8000000000000⟩,
      taught "cpsc" ⟨0x8000000000000000⟩]
    let more : Json := .number (.double ⟨0x3FF8000000000000⟩)
    ∃ q q', ofJson (.object members) = .ok q ∧ ofJson (withGroup columns members) = .ok q' ∧
      q.execute 4 records =
        .ok [row "math" (.int 0), row "cpsc" (.int 0), row "cpsc" more, row "cpsc" (.int 0)] ∧
      q'.execute 4 records = .ok [row "math" (.int 0), row "cpsc" (.int 0), row "cpsc" more] := by
  intro columns members taught row records more
  let q : Query := ⟨"ubc", .sections, .all, none, ⟨[.field "ubc_avg" .avg, .field "ubc_dept" .dept,
    .field "ubc_avg" .avg], some ⟨.down, ["ubc_dept"]⟩⟩⟩
  have hq : ofJson (.object members) = .ok q := rfl
  have hrecords : ∀ r ∈ records, r.kind = q.kind ∧ r.Finite := by decide
  obtain ⟨parts, written, q', hparts, hcolumns, hq', hanswer⟩ := execute_withGroup hq rfl
  obtain rfl := Json.object.inj (Option.some.inj hparts)
  obtain rfl : columns = written := Option.some.inj hcolumns
  obtain ⟨answer, hplain, hgrouped⟩ := hanswer 4 records hrecords (by decide)
  -- The rows are in order already.
  have hsorted : q.options.sorted (records.map (Row.ofRecord q.options.columns)) =
      records.map (Row.ofRecord q.options.columns) :=
    List.mergeSort_of_pairwise (by decide +kernel)
  have hexecute : q.execute 4 records = .ok ((records.map (Row.ofRecord q.options.columns)).map
      (Row.project q.options.columns)) := by
    rw [← hsorted]
    rfl
  obtain rfl := Except.ok.inj (hexecute.symm.trans hplain)
  refine ⟨q, q', hq, hq', hexecute.trans ?_, hgrouped.trans ?_⟩
  · decide +kernel
  · decide +kernel

end Query

end CampusQuery
