import CampusQuery.Engine
import CampusQuery.Proofs.Answer.Cells
import CampusQuery.Proofs.Answer.Groups
import CampusQuery.Proofs.Storage.Loading
/-!
Answers are typed: whatever the directory holds, the rows of an answer have the columns of the
query as their keys, and a number or a text in each as the column says.
-/

namespace CampusQuery

/-- A value that an answer has in a column. -/
def Column.Shows (c : Column) (j : Json) : Prop :=
  if c.isNumeric then ∃ n, j = .number n else ∃ s, j = .string s

theorem Cell.Fits.toJson {c : Column} {cell : Cell} (h : cell.Fits c.isNumeric) :
    c.Shows cell.toJson := by
  unfold Column.Shows
  cases cell with
  | text s =>
    have htext : c.isNumeric = false := h
    rw [htext]
    exact ⟨s, rfl⟩
  | number x =>
    obtain ⟨hnumeric, hfinite⟩ := h
    rw [if_pos hnumeric]
    rcases Cell.toJson_number hfinite with ⟨n, -, hn⟩ | hx
    · exact ⟨.integer n, hn⟩
    · exact ⟨.double x, hx⟩

namespace Row

/-- What stands in a column of the answer is of the type of the column. -/
theorem Fits.shows {columns : List Column} {row : Row} (h : row.Fits columns) {c : Column}
    (hc : c ∈ columns) {j : Json} (hj : (c.key, j) ∈ project columns row) : c.Shows j := by
  obtain ⟨c', -, heq⟩ := List.mem_map.1 (mem_of_mem_assignAll hj)
  obtain ⟨cell, hcell, hfits⟩ := h c hc
  simp only [Prod.mk.injEq] at heq
  obtain ⟨hkey, rfl⟩ := heq
  rw [hkey, hcell]
  exact hfits.toJson

end Row

theorem Options.mem_sorted {options : Options} {rows : List Row} {row : Row} :
    row ∈ options.sorted rows ↔ row ∈ rows := by
  unfold sorted
  cases options.order with
  | none => exact Iff.rfl
  | some order => exact List.mem_mergeSort

theorem Query.execute_eq_ok {q : Query} {limit : Nat} {records : List Record}
    {answer : List OutputRow} (h : q.execute limit records = .ok answer) :
    ∃ rows, q.rows limit records = .ok rows ∧
      answer = (q.options.sorted rows).map (Row.project q.options.columns) := by
  obtain ⟨rows, hrows, hpresent⟩ := Outcome.bind_eq_ok_iff.1 h
  obtain ⟨_, -, hpure⟩ := Outcome.bind_eq_ok_iff.1 hpresent
  cases hpure
  exact ⟨rows, hrows, rfl⟩

theorem Query.Written.available {q : Query} {j : Json} (hq : q.Written j)
    (ht : q.transform = none) :
    ∀ c ∈ q.options.columns, c.Available ⟨q.dataset, q.kind⟩ none := by
  obtain ⟨_, -, -, -, -, _, -, hoptions⟩ := hq
  have havailable := hoptions.available
  rwa [ht] at havailable

theorem Query.Written.mem_columns_of_mem_order {q : Query} {j : Json} (hq : q.Written j)
    {order : SortOrder} (horder : order ∈ q.options.order) {key : String}
    (hkey : key ∈ order.keys) : ∃ c ∈ q.options.columns, c.key = key := by
  obtain ⟨members, rfl, -, -, -, parts, -, hoptions⟩ := hq
  have hrel := hoptions.order
  rw [Option.mem_def.1 horder] at hrel
  cases hj : Json.get? "ORDER" parts with
  | none =>
    rw [hj] at hrel
    cases hrel
  | some j =>
    rw [hj] at hrel
    cases Option.rel_some_some.1 hrel with
    | key only hmem =>
      obtain rfl := List.mem_singleton.1 hkey
      exact List.mem_map.1 hmem
    | keys _ _ _ _ _ _ _ hsub => exact List.mem_map.1 (hsub key hkey)

namespace Engine

variable {e : Engine} {j : Json} {answer : List OutputRow}

theorem query_eq_ok (h : e.query j = .ok answer) :
    ∃ q data, Query.ofJson j = .ok q ∧ Storage.Store.get e.directory q.dataset = .ok data ∧
      data.kind = q.kind ∧ q.execute e.limit data.records = .ok answer := by
  obtain ⟨q, hq, h⟩ := Outcome.bind_eq_ok_iff.1 h
  obtain ⟨_, -, h⟩ := Outcome.bind_eq_ok_iff.1 h
  obtain ⟨data, hdata, h⟩ := Outcome.bind_eq_ok_iff.1 h
  by_cases hkind : data.kind = q.kind
  · simp only [hkind, ne_eq, not_true_eq_false, if_false] at h
    exact ⟨q, data, Outcome.mapError_eq_ok_iff.1 hq, hdata, hkind, Outcome.mapError_eq_ok_iff.1 h⟩
  · simp only [hkind, ne_eq, not_false_eq_true, if_true] at h
    cases h

theorem query_of_get {q : Query} (hq : Query.ofJson j = .ok q)
    (hreach : (Storage.fileName q.dataset).utf8ByteSize ≤ e.longestName) {data : Dataset}
    (hget : Storage.Store.get e.directory q.dataset = .ok data) (hkind : data.kind = q.kind) :
    e.query j = (q.execute e.limit data.records).mapError .answer := by
  have hin : e.reach (Storage.fileName q.dataset) = .ok () := if_pos hreach
  rw [query, hq, Outcome.mapError_ok, Outcome.ok_bind, hin, Outcome.ok_bind, hget, Outcome.ok_bind,
    if_neg (not_not.2 hkind)]

/-- The answer of a query is typed, and so is all that sorting compares. -/
theorem query_typed (h : e.query j = .ok answer) :
    ∃ (q : Query) (data : Dataset) (rows : List Row), q.Written j ∧
      Storage.Store.get e.directory q.dataset = .ok data ∧
      q.rows e.limit data.records = .ok rows ∧
      answer = (q.options.sorted rows).map (Row.project q.options.columns) ∧
      (∀ row ∈ answer, row.map Prod.fst = (q.options.columns.map Column.key).eraseDups ∧
        ∀ c ∈ q.options.columns, ∀ cell, (c.key, cell) ∈ row → c.Shows cell) ∧
      ∀ order ∈ q.options.order, ∀ key ∈ order.keys,
        (∀ row ∈ rows, ∃ x, row.get? key = some (.number x)) ∨
          ∀ row ∈ rows, ∃ s, row.get? key = some (.text s) := by
  obtain ⟨q, data, hofJson, hget, hkind, hexecute⟩ := query_eq_ok h
  obtain ⟨rows, hrows, hanswer⟩ := Query.execute_eq_ok hexecute
  obtain ⟨-, hlength, hrecords⟩ := Storage.Store.get_eq_ok hget
  have hwritten := Query.written_of_ofJson hofJson
  have hfits : ∀ row ∈ rows, row.Fits q.options.columns :=
    Query.fits_rows hwritten hlength (hkind ▸ hrecords) hrows
  refine ⟨q, data, rows, hwritten, hget, hrows, hanswer, ?_, ?_⟩
  · intro output houtput
    rw [hanswer] at houtput
    obtain ⟨row, hrow, rfl⟩ := List.mem_map.1 houtput
    have hrow := hfits row (Options.mem_sorted.1 hrow)
    exact ⟨Row.keys_project _ row, fun c hc cell hcell => hrow.shows hc hcell⟩
  · intro order horder key hkey
    obtain ⟨c, hc, rfl⟩ := hwritten.mem_columns_of_mem_order horder hkey
    cases hnumeric : c.isNumeric with
    | true =>
      refine .inl fun row hrow => ?_
      obtain ⟨cell, hcell, hcellFits⟩ := hfits row hrow c hc
      cases cell with
      | number x => exact ⟨x, hcell⟩
      | text s => exact absurd (hnumeric.symm.trans hcellFits) (by simp)
    | false =>
      refine .inr fun row hrow => ?_
      obtain ⟨cell, hcell, hcellFits⟩ := hfits row hrow c hc
      cases cell with
      | number x => exact absurd (hnumeric.symm.trans hcellFits.1) (by simp)
      | text s => exact ⟨s, hcell⟩

/-- A file that no engine has written, an array without a member name, is as good as any other. -/
theorem query_typed_of_array_file :
    let file := "[\"ubc\",\"sections\",1,[[\"cpsc\",\"310\",\"\",\"\",\"1\",2015,71.5,3,0,0]]]"
    let e : Engine := ⟨[("756263.json", .file file.toUTF8)], 10, 255⟩
    let columns := [Json.string "ubc_dept", .string "ubc_avg", .string "ubc_dept"]
    let j : Json := .object [("WHERE", .object []),
      ("OPTIONS", .object [("COLUMNS", .array columns), ("ORDER", .string "ubc_avg")])]
    ∃ answer, e.query j = .ok answer ∧ answer.length = 1 ∧
      ∀ row ∈ answer, row.map Prod.fst = ["ubc_dept", "ubc_avg"] := by
  intro file e columns j
  have hlength : (e.query j).toOption.map List.length = some 1 := by decide +kernel
  obtain ⟨answer, hanswer, hone⟩ := Option.map_eq_some_iff.1 hlength
  have h := Outcome.toOption_eq_some_iff.1 hanswer
  obtain ⟨q, _, _, hq, -, -, -, hrows, -⟩ := query_typed h
  refine ⟨answer, h, hone, fun row hrow => ?_⟩
  obtain ⟨members, hmembers, -, -, -, parts, hparts, hoptions⟩ := hq
  obtain rfl := Json.object.inj hmembers
  obtain rfl : [("COLUMNS", Json.array columns), ("ORDER", .string "ubc_avg")] = parts := by
    simpa [Json.get?, List.lookup_cons] using hparts
  have hkeys : q.options.columns.map Column.key = ["ubc_dept", "ubc_avg", "ubc_dept"] := by
    have hcolumns := hoptions.columns
    simp only [Json.get?, List.lookup_cons_self, Option.some.injEq, Json.array.injEq] at hcolumns
    have hinjective : Function.Injective Json.string := fun s t h => by simpa using h
    apply List.map_injective_iff.2 hinjective
    rw [List.map_map]
    exact hcolumns.symm
  rw [(hrows row hrow).1, hkeys]
  rfl

end Engine

end CampusQuery
