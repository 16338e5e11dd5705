import CampusQuery.Proofs.Answer.Presentation
import CampusQuery.Proofs.Satisfaction
import CampusQuery.Proofs.Storage.Datasets
/-!
The rows of an answer without grouping, record by record.

Adding a dataset keeps one record of each identifier, but loading one does not look at identifiers.
Of records that share one, a file can hold many, and a condition that is true of one of them brings
all of them into the answer.
-/

namespace CampusQuery

namespace Query

variable {q : Query}

/-- Without grouping, an answer has the rows of the records for whose identifiers the condition
counts. -/
theorem perm_of_execute_eq_ok {j : Json} (hq : q.Written j) (hplain : q.transform = none)
    {limit : Nat} {records : List Record} (hrecords : ∀ r ∈ records, r.kind = q.kind)
    {answer : List OutputRow} (h : q.execute limit records = .ok answer) :
    answer.Perm ((records.filter fun r =>
      q.filter.satTogether (Filter.withId r.naturalId records)).map
        fun r => q.shown (.record r)) := by
  have hpresents := presents_execute hq hrecords limit
  rw [h, hplain, items, Filter.matching_eq_filter_satTogether] at hpresents
  cases hpresents with
  | ok _ hsorted =>
    have hperm := hsorted.perm.map q.shown
    rwa [List.map_map] at hperm

end Query

namespace Engine

variable {e : Engine} {j : Json} {q : Query} {answer : List OutputRow}

/-- Without grouping, the answer of a query over any directory has a row for each record that is
stored under an identifier of which the condition is true, and no others. If a record shares its
identifier with no different one, the condition is judged by its own fields. -/
theorem query_perm (hq : Query.ofJson j = .ok q) (hplain : q.transform = none)
    (h : e.query j = .ok answer) :
    ∃ data, Storage.Store.get e.directory q.dataset = .ok data ∧
      answer.Perm ((data.records.filter fun r =>
        q.filter.satTogether (Filter.withId r.naturalId data.records)).map
          fun r => q.shown (.record r)) ∧
      (∀ r ∈ data.records, (∀ r' ∈ data.records, r'.naturalId = r.naturalId → r' = r) →
        q.filter.satTogether (Filter.withId r.naturalId data.records) = q.filter.sat r) ∧
      ((∀ r ∈ data.records, ∀ r' ∈ data.records, r'.naturalId = r.naturalId → r' = r) →
        answer.Perm ((data.records.filter fun r => q.filter.sat r).map
          fun r => q.shown (.record r))) := by
  obtain ⟨q', data, hq', hget, hkind, hexecute⟩ := query_eq_ok h
  obtain rfl := Except.ok.inj (hq'.symm.trans hq)
  have hrecords : ∀ r ∈ data.records, r.kind = q'.kind := fun r hr =>
    ((Storage.Store.get_eq_ok hget).2.2 r hr).1.trans hkind
  have hperm := Query.perm_of_execute_eq_ok (Query.written_of_ofJson hq) hplain hrecords hexecute
  refine ⟨data, hget, hperm, fun r hr hown => Filter.satTogether_withId hr hown _, fun hown => ?_⟩
  have hfilter : data.records.filter (fun r =>
      q'.filter.satTogether (Filter.withId r.naturalId data.records)) =
        data.records.filter fun r => q'.filter.sat r :=
    List.filter_congr fun r hr => Filter.satTogether_withId hr (hown r hr) _
  rwa [hfilter] at hperm

/-- The second record has an average that is not above eighty, and the identifier of the first; the
third has an identifier of its own. -/
theorem query_perm_of_shared_identifier :
    let taught (uuid dept : String) (avg : Double) : Record :=
      .ofSection ⟨dept, "", "", "", uuid, .zero, avg, .zero, .zero, .zero⟩
    let records := [taught "1" "cpsc" (.ofInt 90), taught "1" "math" (.ofInt 70),
      taught "2" "phil" (.ofInt 70)]
    let e : Engine := ⟨[Storage.entryOf ⟨"ubc", .sections, records⟩], 10, 255⟩
    let j : Json := .object [("WHERE", .object [("GT", .object [("ubc_avg", .int 80)])]),
      ("OPTIONS", .object [("COLUMNS", .array [.string "ubc_dept"])])]
    ∃ answer, e.query j = .ok answer ∧
      answer.Perm [[("ubc_dept", .string "cpsc")], [("ubc_dept", .string "math")]] := by
  intro taught records e j
  let q : Query := ⟨"ubc", .sections, .compare .gt .avg (.ofInt 80), none,
    ⟨[.field "ubc_dept" .dept], none⟩⟩
  have hq : Query.ofJson j = .ok q := rfl
  have hread : Storage.Store.get e.directory "ubc" =
      .ok ⟨"ubc", .sections, records.map Record.reread⟩ :=
    @Storage.get_of_find? _ ⟨"ubc", .sections, records⟩ List.lookup_cons_self (by decide) (by decide)
      (by decide)
  have hget : Storage.Store.get e.directory "ubc" = .ok ⟨"ubc", .sections, records⟩ := by
    rw [hread, Record.map_reread_eq_self (by decide +kernel)]
  have hmatching : q.filter.matching records =
      [taught "1" "cpsc" (.ofInt 90), taught "1" "math" (.ofInt 70)] := by
    rw [Filter.matching_eq_filter_satTogether]
    decide +kernel
  obtain ⟨answer, hanswer⟩ : ∃ answer, e.query j = .ok answer := by
    rw [query_of_get hq (by decide) hget rfl]
    simp only [Query.execute, Query.rows, q, hmatching]
    exact ⟨_, rfl⟩
  obtain ⟨data, hdata, hperm, -⟩ := query_perm hq rfl hanswer
  obtain rfl := Except.ok.inj (hget.symm.trans hdata)
  have hshown : [taught "1" "cpsc" (.ofInt 90), taught "1" "math" (.ofInt 70)].map
      (fun r => q.shown (.record r)) =
        [[("ubc_dept", .string "cpsc")], [("ubc_dept", .string "math")]] := by
    decide +kernel
  rw [← Filter.matching_eq_filter_satTogether, hmatching, hshown] at hperm
  exact ⟨answer, hanswer, hperm⟩

/-- Of two stored records, one satisfies the condition, and the answer has rows of both. -/
theorem query_row_of_other_record :
    let file := "[\"ubc\",\"sections\",2,[[\"cpsc\",\"310\",\"\",\"\",\"1\",2015,90,0,0,0]," ++
      "[\"math\",\"310\",\"\",\"\",\"1\",2015,70,0,0,0]]]"
    let e : Engine := ⟨[("756263.json", .file file.toUTF8)], 5000, 255⟩
    let j : Json := .object [("WHERE", .object [("GT", .object [("ubc_avg", .int 80)])]),
      ("OPTIONS", .object [("COLUMNS", .array [.string "ubc_dept"])])]
    ∃ q data, Query.ofJson j = .ok q ∧ q.transform = none ∧
      Storage.Store.get e.directory q.dataset = .ok data ∧
      (data.records.filter fun r => q.filter.sat r).map (fun r => q.shown (.record r)) =
        [[("ubc_dept", .string "cpsc")]] ∧
      e.query j = .ok [[("ubc_dept", .string "cpsc")], [("ubc_dept", .string "math")]] := by
  intro file e j
  let taught (dept : String) (avg : Int) : Record :=
    .ofSection ⟨dept, "310", "", "", "1", .ofInt 2015, .ofInt avg, .zero, .zero, .zero⟩
  let records := [taught "cpsc" 90, taught "math" 70]
  let q : Query := ⟨"ubc", .sections, .compare .gt .avg (.ofInt 80), none,
    ⟨[.field "ubc_dept" .dept], none⟩⟩
  have hq : Query.ofJson j = .ok q := rfl
  have hget : Storage.Store.get e.directory "ubc" = .ok ⟨"ubc", .sections, records⟩ := by
    have hread : e.directory.read (Storage.fileName "ubc") = .ok file.toUTF8 := rfl
    have hdecode : Storage.DatasetFile.decode? file.toUTF8 = some ⟨"ubc", .sections, 2, records⟩ := by
      decide +kernel
    rw [Storage.get_of_read hread, hdecode]
    rfl
  have hmatching : q.filter.matching records = records := by
    rw [Filter.matching_eq_filter_satTogether]
    decide +kernel
  refine ⟨q, _, hq, rfl, hget, by decide +kernel, ?_⟩
  rw [query_of_get hq (by decide) hget rfl]
  simp only [Query.execute, Query.rows, q, hmatching]
  rfl

end Engine

end CampusQuery
