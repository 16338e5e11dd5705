import CampusQuery.Display.Rows
import Mathlib.Data.List.Forall2
import Mathlib.Tactic.SplitIfs
/-!
Reading comma-separated values back.

The reader takes any text in which each field is either without commas, quotes and ends of lines, or
in quotes with those inside it doubled. It passes over empty lines. The writer quotes one field at a
time, so what the reader makes of its text is found field by field, record by record.
-/

namespace CampusQuery.Display

/-! ### The reader -/

/-- Where in a field the text stands. -/
inductive CsvStage
  | start
  | plain
  | quoted
  /-- Behind a quote inside a quoted field, which ends it unless another quote follows. -/
  | closed
deriving DecidableEq, Repr

/-- The records so far, the fields of the record at hand and the characters of the field at hand,
each with the latest first. -/
structure CsvReader where
  records : List (List String)
  fields : List String
  field : List Char
  stage : CsvStage

namespace CsvReader

/-- The start of a record. -/
def start : CsvReader :=
  ⟨[], [], [], .start⟩

def add (r : CsvReader) (c : Char) (stage : CsvStage) : CsvReader :=
  { r with field := c :: r.field, stage }

def endField (r : CsvReader) : CsvReader :=
  ⟨r.records, .ofList r.field.reverse :: r.fields, [], .start⟩

def endRecord (r : CsvReader) : CsvReader :=
  ⟨r.endField.fields.reverse :: r.records, [], [], .start⟩

/-- A field ends with a comma or with the line. -/
def separate? (r : CsvReader) (c : Char) : Option CsvReader :=
  if c = ',' then some r.endField else if c = '\n' then some r.endRecord else none

/-- The next character. A quote opens a field only at its start, and carriage returns stand in
quotes. -/
def push (r : CsvReader) (c : Char) : Option CsvReader :=
  match r.stage with
  | .start =>
    if c = '"' then some { r with stage := .quoted }
    else if c = '\n' ∧ r.fields = [] then some r
    else if needsQuotes c then r.separate? c
    else some (r.add c .plain)
  | .plain => if needsQuotes c then r.separate? c else some (r.add c .plain)
  | .quoted => some (if c = '"' then { r with stage := .closed } else r.add c .quoted)
  | .closed => if c = '"' then some (r.add c .quoted) else r.separate? c

/-- The records of a text that ends here. The last one may go without an end of its line. -/
def finish (r : CsvReader) : Option (List (List String)) :=
  match r.stage with
  | .start => some (if r.fields = [] then r.records else r.endRecord.records).reverse
  | .quoted => none
  | .plain | .closed => some r.endRecord.records.reverse

/-- The records of a text. -/
def read? (text : String) : Option (List (List String)) :=
  (text.toList.foldlM push start).bind finish

example : read? "a,\"b \"\"c\"\"\n\"\n\n,d" = some [["a", "b \"c\"\n"], ["", "d"]] := by
  decide +kernel

example : ["a\"b\"", "\"a\"b", "\"a", "a\r\n"].map read? = [none, none, none, none] := by
  decide +kernel

end CsvReader

/-! ### Fields -/

/-- The text of a field, and the field. -/
inductive CsvSpells : List Char → List Char → Prop
  | plain {field : List Char} (h : ∀ c ∈ field, needsQuotes c = false) : CsvSpells field field
  | quoted (field : List Char) : CsvSpells (csvQuoted field) field

theorem csvSpells_csvField (field : List Char) : CsvSpells (csvField field) field := by
  unfold csvField
  split_ifs with h
  · exact .quoted field
  · simp only [List.any_eq_true, not_exists, not_and, Bool.not_eq_true] at h
    exact .plain h

theorem csvField_eq_nil_iff {field : List Char} : csvField field = [] ↔ field = [] := by
  unfold csvField
  split_ifs with h
  · have hfield : field ≠ [] := by
      rintro rfl
      cases h
    simp [csvQuoted, hfield]
  · rfl

/-- A record is its fields with commas between them and a line feed at its end. It is no empty
line. -/
theorem exists_csvRecord_eq {fields : List (List Char)} (h : fields ≠ []) :
    ∃ texts, csvRecord fields = [','].intercalate texts ++ ['\n'] ∧ texts ≠ [[]] ∧
      List.Forall₂ CsvSpells texts fields := by
  unfold csvRecord
  by_cases hempty : fields = [[]]
  · subst hempty
    refine ⟨[csvQuoted []], rfl, by decide, ?_⟩
    exact .cons (.quoted []) .nil
  · refine ⟨fields.map csvField, by rw [if_neg hempty], ?_, ?_⟩
    · intro htexts
      obtain ⟨field, rfl, hfield⟩ := List.map_eq_singleton_iff.1 htexts
      exact hempty (by rw [csvField_eq_nil_iff.1 hfield])
    · rw [List.forall₂_map_left_iff, List.forall₂_same]
      exact fun field _ => csvSpells_csvField field

/-! ### Reading what is spelled -/

namespace CsvReader

variable {records : List (List String)} {fields : List String} {field : List Char}
  {stage : CsvStage}

theorem foldlM_push_plain {text : List Char} (h : ∀ c ∈ text, needsQuotes c = false) :
    text.foldlM push ⟨records, fields, field, .plain⟩ =
      some ⟨records, fields, text.reverse ++ field, .plain⟩ := by
  induction text generalizing field with
  | nil => rfl
  | cons c text ih =>
    rw [List.forall_mem_cons] at h
    have hpush : push ⟨records, fields, field, .plain⟩ c =
        some ⟨records, fields, c :: field, .plain⟩ := by simp [push, h.1, add]
    rw [List.foldlM_cons, hpush]
    exact (ih h.2).trans (by simp)

theorem foldlM_push_doubled (text : List Char) :
    (text.flatMap fun c => if c = '"' then ['"', '"'] else [c]).foldlM push
      ⟨records, fields, field, .quoted⟩ =
      some ⟨records, fields, text.reverse ++ field, .quoted⟩ := by
  induction text generalizing field with
  | nil => rfl
  | cons c text ih =>
    have hpush : (if c = '"' then ['"', '"'] else [c]).foldlM push
        ⟨records, fields, field, .quoted⟩ = some ⟨records, fields, c :: field, .quoted⟩ := by
      by_cases hc : c = '"'
      · subst hc
        rfl
      · simp [hc, push, add]
    rw [List.flatMap_cons, List.foldlM_append, hpush]
    exact ih.trans (by simp)

/-- The text of a field leaves the reader with the field, which is at an end. -/
theorem foldlM_push_of_spells {text value : List Char} (h : CsvSpells text value)
    (records : List (List String)) (fields : List String) :
    ∃ stage, stage ≠ .quoted ∧ (stage = .start → text = []) ∧
      text.foldlM push ⟨records, fields, [], .start⟩ =
        some ⟨records, fields, value.reverse, stage⟩ := by
  cases h with
  | plain h =>
    cases text with
    | nil => exact ⟨.start, by decide, fun _ => rfl, rfl⟩
    | cons c text =>
      rw [List.forall_mem_cons] at h
      have hpush : push ⟨records, fields, [], .start⟩ c = some ⟨records, fields, [c], .plain⟩ := by
        have hquote : c ≠ '"' := by
          rintro rfl
          cases h.1
        have hline : c ≠ '\n' := by
          rintro rfl
          cases h.1
        simp [push, hquote, hline, h.1, add]
      refine ⟨.plain, by decide, nofun, ?_⟩
      rw [List.foldlM_cons, hpush]
      exact (foldlM_push_plain h.2).trans (by simp)
  | quoted =>
    refine ⟨.closed, by decide, nofun, ?_⟩
    have hopen : push ⟨records, fields, [], .start⟩ '"' = some ⟨records, fields, [], .quoted⟩ := rfl
    rw [csvQuoted, List.cons_append, List.foldlM_cons, hopen, Option.bind_eq_bind,
      Option.bind_some, List.foldlM_append, foldlM_push_doubled]
    exact congrArg some (by simp)

theorem push_comma (h : stage ≠ .quoted) :
    push ⟨records, fields, field, stage⟩ ',' =
      some ⟨records, .ofList field.reverse :: fields, [], .start⟩ := by
  cases stage with
  | quoted => exact absurd rfl h
  | start | plain | closed => rfl

theorem push_lineFeed (h : stage ≠ .quoted) (hblank : stage = .start → fields ≠ []) :
    push ⟨records, fields, field, stage⟩ '\n' =
      some ⟨(.ofList field.reverse :: fields).reverse :: records, [], [], .start⟩ := by
  cases stage with
  | quoted => exact absurd rfl h
  | plain | closed => rfl
  | start =>
    have hfields : fields ≠ [] := hblank rfl
    simp [push, hfields, needsQuotes, separate?, endRecord, endField]

/-- A record that is no empty line is read as its fields. -/
theorem foldlM_push_record {texts values : List (List Char)}
    (h : List.Forall₂ CsvSpells texts values) (hne : values ≠ [])
    (hblank : fields = [] → texts ≠ [[]]) :
    ([','].intercalate texts ++ ['\n']).foldlM push ⟨records, fields, [], .start⟩ =
      some ⟨(fields.reverse ++ values.map .ofList) :: records, [], [], .start⟩ := by
  induction h generalizing fields with
  | nil => exact absurd rfl hne
  | @cons text value texts values hspells hrest ih =>
    obtain ⟨stage, hstage, hstart, hfield⟩ := foldlM_push_of_spells hspells records fields
    cases hrest with
    | nil =>
      -- Only a record of one plain empty field could be taken for an empty line.
      have hend : stage = .start → fields ≠ [] := by
        rintro hs rfl
        exact hblank rfl (by rw [hstart hs])
      rw [List.intercalate_singleton, List.foldlM_append, hfield, Option.bind_eq_bind,
        Option.bind_some, List.foldlM_cons, push_lineFeed hstage hend]
      simp
    | cons hnext hrest =>
      rw [List.intercalate_cons_cons, List.append_assoc, List.append_assoc, List.foldlM_append,
        hfield, Option.bind_eq_bind, Option.bind_some, List.singleton_append, List.foldlM_cons,
        push_comma hstage, Option.bind_eq_bind, Option.bind_some, ih (by simp) (by simp)]
      simp

/-- Records one after the other. -/
theorem foldlM_push_records {rows : List (List String)} (h : ∀ row ∈ rows, row ≠ []) :
    (rows.flatMap fun row => csvRecord (row.map String.toList)).foldlM push
      ⟨records, [], [], .start⟩ = some ⟨rows.reverse ++ records, [], [], .start⟩ := by
  induction rows generalizing records with
  | nil => rfl
  | cons row rows ih =>
    rw [List.forall_mem_cons] at h
    have hrow : row.map String.toList ≠ [] := by simpa using h.1
    obtain ⟨texts, hrecord, hblank, hspells⟩ := exists_csvRecord_eq hrow
    have hvalues : (row.map String.toList).map String.ofList = row := by simp
    rw [List.flatMap_cons, List.foldlM_append, hrecord,
      foldlM_push_record hspells hrow fun _ => hblank, hvalues, Option.bind_eq_bind,
      Option.bind_some, ih h.2]
    simp

end CsvReader

theorem csvTextOf?_eq_some {head : List String} {rows : List (List String)}
    (h : ∀ row ∈ rows, row.length = head.length) :
    csvTextOf? head rows =
      some (.ofList ((head :: rows).flatMap fun row => csvRecord (row.map String.toList))) :=
  if_pos (by simpa using h)

theorem read?_csvTextOf? {head : List String} {rows : List (List String)} (hhead : head ≠ [])
    (h : ∀ row ∈ rows, row.length = head.length) :
    (csvTextOf? head rows).bind CsvReader.read? = some (head :: rows) := by
  have hrows : ∀ row ∈ head :: rows, row ≠ [] := by
    refine List.forall_mem_cons.2 ⟨hhead, fun row hrow hnil => hhead ?_⟩
    rw [← List.length_eq_zero_iff, ← h row hrow, hnil, List.length_nil]
  rw [csvTextOf?_eq_some h, Option.bind_some, CsvReader.read?, String.toList_ofList,
    CsvReader.start, CsvReader.foldlM_push_records hrows]
  simp [CsvReader.finish]

/-! ### Answers -/

/-- All rows have as many members as the first one. -/
def Rectangular (rows : List OutputRow) : Prop :=
  ∀ row ∈ rows, row.length = (header rows).length

theorem csvText?_eq_csvTextOf? {rows : List OutputRow} (h : header rows ≠ []) :
    csvText? rows = csvTextOf? (header rows) (rows.map cellTexts) := by
  rw [csvText?, if_neg (by simpa using h)]

theorem length_cellTexts (row : OutputRow) : (cellTexts row).length = row.length :=
  List.length_map _

theorem read?_csvText? {rows : List OutputRow} (hheader : header rows ≠ [])
    (hrectangular : Rectangular rows) :
    (csvText? rows).bind CsvReader.read? = some (header rows :: rows.map cellTexts) := by
  rw [csvText?_eq_csvTextOf? hheader]
  refine read?_csvTextOf? hheader fun row hrow => ?_
  obtain ⟨row, hmem, rfl⟩ := List.mem_map.1 hrow
  rw [length_cellTexts, hrectangular row hmem]

theorem csvText?_eq_none {rows : List OutputRow} (hheader : header rows ≠ [])
    (huneven : ¬ Rectangular rows) : csvText? rows = none := by
  rw [csvText?_eq_csvTextOf? hheader, csvTextOf?, if_neg]
  intro hall
  refine huneven fun row hrow => ?_
  have hlength := List.all_eq_true.1 hall (cellTexts row) (List.mem_map_of_mem hrow)
  rwa [beq_iff_eq, length_cellTexts] at hlength

/-- Rows with as many members as the first, which has some, are written as a text from which the
names of its members and the texts of all cells are read. So no other names or texts are written
alike. Where a row has more or fewer members, there is no text. -/
theorem csv_readable {first : OutputRow} (hfirst : first ≠ []) (rest : List OutputRow) :
    ((∀ row ∈ rest, row.length = first.length) →
      (∃ text, csvText? (first :: rest) = some text ∧ CsvReader.read? text =
        some (first.map Prod.fst :: (first :: rest).map fun row =>
          row.map fun (_, cell) => cellText cell)) ∧
      ∀ other others, other ≠ [] → (∀ row ∈ others, row.length = other.length) →
        csvText? (first :: rest) = csvText? (other :: others) →
        first.map Prod.fst = other.map Prod.fst ∧
          (first :: rest).map cellTexts = (other :: others).map cellTexts) ∧
    ((∃ row ∈ rest, row.length ≠ first.length) → csvText? (first :: rest) = none) := by
  have hheader {first : OutputRow} (hfirst : first ≠ []) (rest : List OutputRow) :
      header (first :: rest) ≠ [] := by
    simpa [header] using hfirst
  have hrectangular {first : OutputRow} {rest : List OutputRow} :
      Rectangular (first :: rest) ↔ ∀ row ∈ rest, row.length = first.length := by
    simp [Rectangular, header]
  refine ⟨fun hrest => ⟨?_, ?_⟩, fun huneven => ?_⟩
  · exact Option.bind_eq_some_iff.1 (read?_csvText? (hheader hfirst rest) (hrectangular.2 hrest))
  · intro other others hother hothers hsame
    have hread := read?_csvText? (hheader hfirst rest) (hrectangular.2 hrest)
    rw [hsame, read?_csvText? (hheader hother others) (hrectangular.2 hothers), Option.some_inj,
      List.cons_eq_cons] at hread
    exact ⟨hread.1.symm, hread.2.symm⟩
  · refine csvText?_eq_none (hheader hfirst rest) fun hall => ?_
    obtain ⟨row, hrow, hne⟩ := huneven
    exact hne (hrectangular.1 hall row hrow)

/-- One column, with an empty text, a null, a text with all that must be quoted, and a number. -/
theorem csv_readable_of_one_column :
    let row (cell : Json) : OutputRow := [("a,b", cell)]
    (∃ text, csvText? [row (.string ""), row .null, row (.string "\",\"\r\n"), row (.int 7)] =
        some text ∧
      CsvReader.read? text = some [["a,b"], [""], [""], ["\",\"\r\n"], ["7"]]) ∧
      csvText? [row .null, row .null ++ row .null] = none := by
  intro row
  obtain ⟨hread, -⟩ := csv_readable (List.cons_ne_nil _ _ : row (.string "") ≠ [])
    [row .null, row (.string "\",\"\r\n"), row (.int 7)]
  obtain ⟨-, hnone⟩ := csv_readable (List.cons_ne_nil _ _ : row .null ≠ [])
    [row .null ++ row .null]
  obtain ⟨text, htext, hrecords⟩ := (hread (by simp [row])).1
  refine ⟨⟨text, htext, ?_⟩, hnone (by simp [row])⟩
  rw [hrecords]
  decide +kernel

end CampusQuery.Display
