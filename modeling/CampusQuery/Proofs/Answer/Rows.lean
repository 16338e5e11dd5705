import CampusQuery.Answer
import CampusQuery.Proofs.Dataset.Records
import CampusQuery.Proofs.Distinct
import CampusQuery.Proofs.Query.Validation
/-!
The rows of a query have a cell in every column, of the type that the column asks for.
-/

namespace CampusQuery

/-- A finite number where a number is asked for, and a text where none is. -/
def Cell.Fits (numeric : Bool) : Cell → Prop
  | .number x => numeric = true ∧ x.isFinite = true
  | .text _ => numeric = false

/-- The column holds numbers; all others hold text. -/
def Column.isNumeric : Column → Bool
  | .field _ f => f.isNumeric
  | .applied _ => true

/-- The row has a cell that fits in every column. -/
def Row.Fits (columns : List Column) (row : Row) : Prop :=
  ∀ c ∈ columns, ∃ cell, row.get? c.key = some cell ∧ cell.Fits c.isNumeric

namespace Record

variable {r : Record} {field : Field}

theorem exists_number? (hkind : field.kind = r.kind) (hnumeric : field.isNumeric = true) :
    ∃ x, r.number? field = some x :=
  Option.isSome_iff_exists.1 (isSome_number?_iff.2 ⟨hkind, hnumeric⟩)

theorem exists_text? (hkind : field.kind = r.kind) (htext : field.isNumeric = false) :
    ∃ s, r.text? field = some s :=
  Option.isSome_iff_exists.1 (isSome_text?_iff.2 ⟨hkind, htext⟩)

/-- A record has a cell in every field of its kind. -/
theorem cell?_ne_none (hkind : field.kind = r.kind) : r.cell? field ≠ none := by
  cases hnumeric : field.isNumeric with
  | true =>
    obtain ⟨x, hx⟩ := exists_number? hkind hnumeric
    simp [cell?, hnumeric, hx]
  | false =>
    obtain ⟨s, hs⟩ := exists_text? hkind hnumeric
    simp [cell?, hnumeric, hs]

/-- Where its numbers are finite, the cells fit. -/
theorem exists_cell? (hr : r.Finite) (hkind : field.kind = r.kind) :
    ∃ cell, r.cell? field = some cell ∧ cell.Fits field.isNumeric := by
  cases hnumeric : field.isNumeric with
  | true =>
    obtain ⟨x, hx⟩ := exists_number? hkind hnumeric
    exact ⟨.number x, by simp [cell?, hnumeric, hx], rfl, hr field x hx⟩
  | false =>
    obtain ⟨s, hs⟩ := exists_text? hkind hnumeric
    exact ⟨.text s, by simp [cell?, hnumeric, hs], rfl⟩

end Record

/-! ### Cells of rows -/

namespace Row

theorem keys_project (columns : List Column) (row : Row) :
    (project columns row).map Prod.fst = (columns.map Column.key).eraseDups := by
  rw [project, keys_assignAll, List.map_map]
  rfl

theorem get?_insert (row : Row) (key key' : String) (cell : Cell) :
    (row.insert key cell).get? key' = if key' = key then some cell else row.get? key' :=
  lookup_assign key key' cell row.cells

theorem insert?_some (row : Row) (key : String) (cell : Cell) :
    row.insert? key (some cell) = row.insert key cell :=
  rfl

variable {ι : Type} {key : ι → String} {cell : ι → Option Cell}

/-- After cells are put one by one, each key has the last of its cells. -/
theorem get?_foldl_insert?_eq (l : List ι) (row : Row) (k : String) :
    (l.foldl (fun row i => row.insert? (key i) (cell i)) row).get? k =
      (l.reverse.findSome? fun i => if key i = k then cell i else none).or (row.get? k) := by
  induction l generalizing row with
  | nil => rfl
  | cons i l ih =>
    rw [List.foldl_cons, ih, List.reverse_cons, List.findSome?_append, Option.or_assoc]
    congr 1
    rw [List.findSome?_singleton]
    cases hcell : cell i with
    | none => simp [insert?]
    | some c =>
      rw [insert?_some, get?_insert]
      by_cases hk : key i = k
      · rw [if_pos hk.symm, if_pos hk, Option.some_or]
      · rw [if_neg (Ne.symm hk), if_neg hk, Option.none_or]

/-- Where all cells are there, each key has the cell of one of its places. -/
theorem get?_foldl_insert? {l : List ι} (hcell : ∀ i ∈ l, cell i ≠ none) (row : Row) (k : String) :
    (k ∉ l.map key →
      (l.foldl (fun row i => row.insert? (key i) (cell i)) row).get? k = row.get? k) ∧
    (k ∈ l.map key → ∃ i ∈ l, key i = k ∧
      (l.foldl (fun row i => row.insert? (key i) (cell i)) row).get? k = cell i) := by
  rw [get?_foldl_insert?_eq]
  cases hlast : l.reverse.findSome? fun i => if key i = k then cell i else none with
  | none =>
    have hnone : k ∉ l.map key := by
      rintro hmem
      obtain ⟨i, hi, rfl⟩ := List.mem_map.1 hmem
      have hskip := List.findSome?_eq_none_iff.1 hlast i (List.mem_reverse.2 hi)
      rw [if_pos rfl] at hskip
      exact hcell i hi hskip
    exact ⟨fun _ => rfl, fun hmem => absurd hmem hnone⟩
  | some c =>
    obtain ⟨i, hi, hput⟩ := List.exists_of_findSome?_eq_some hlast
    split_ifs at hput with hk
    refine ⟨fun hnot => absurd (List.mem_map.2 ⟨i, List.mem_reverse.1 hi, hk⟩) hnot, fun _ => ?_⟩
    exact ⟨i, List.mem_reverse.1 hi, hk, hput.symm⟩

end Row

/-- The cell of a record in a column. -/
def Column.cell? (r : Record) : Column → Option Cell
  | .field _ f => r.cell? f
  | .applied _ => none

namespace Row

theorem ofRecord_eq_foldl (columns : List Column) (r : Record) :
    ofRecord columns r = columns.foldl (fun row c => row.insert? c.key (c.cell? r)) empty := by
  unfold ofRecord
  congr 1
  funext row c
  cases c <;> rfl

section

variable {subject : Subject} {columns : List Column} {r : Record}
  (hcolumns : ∀ c ∈ columns, c.Available subject none) (hkind : r.kind = subject.kind)
include hcolumns hkind

/-- The columns of records are fields of their kind, and no key stands for two of them. -/
theorem get?_ofRecord {c : Column} (hc : c ∈ columns) :
    (ofRecord columns r).get? c.key = c.cell? r := by
  have hsome : ∀ c ∈ columns, c.cell? r ≠ none := by
    intro c hc
    have havailable := hcolumns c hc
    cases c with
    | field key f => exact Record.cell?_ne_none (havailable.kind_eq.trans hkind.symm)
    | applied key => exact havailable.elim
  obtain ⟨c', hc', hkey, hget⟩ := (get?_foldl_insert? hsome empty c.key).2 (List.mem_map_of_mem hc)
  have heq : c' = c := by
    have havailable := hcolumns c hc
    have havailable' := hcolumns c' hc'
    cases c with
    | field key f =>
      cases c' with
      | field key' f' =>
        obtain rfl : key' = key := hkey
        rw [havailable'.field_eq havailable]
      | applied key' => exact havailable'.elim
    | applied key => exact havailable.elim
  rw [ofRecord_eq_foldl, hget, heq]

theorem fits_ofRecord (hr : r.Finite) : (ofRecord columns r).Fits columns := by
  intro c hc
  rw [get?_ofRecord hcolumns hkind hc]
  have havailable := hcolumns c hc
  cases c with
  | field key f => exact Record.exists_cell? hr (havailable.kind_eq.trans hkind.symm)
  | applied key => exact havailable.elim

end

end Row

end CampusQuery
