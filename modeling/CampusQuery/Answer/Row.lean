import CampusQuery.Query
/-!
Rows: what a query computes for a record or a group, before and after the choice of columns.
-/

namespace CampusQuery

/-- Cells under the keys of a query. -/
structure Row where
  cells : List (String × Cell)
deriving DecidableEq, Inhabited

/-- A row of an answer, its columns in order. -/
abbrev OutputRow :=
  List (String × Json)

namespace Row

def empty : Row :=
  ⟨[]⟩

/-- Puts a cell under a key, in place of one that is there. -/
def insert (row : Row) (key : String) (cell : Cell) : Row :=
  ⟨assign key cell row.cells⟩

def get? (row : Row) (key : String) : Option Cell :=
  row.cells.lookup key

/-- Puts a cell under a key if there is one. -/
def insert? (row : Row) (key : String) (cell : Option Cell) : Row :=
  match cell with
  | some cell => row.insert key cell
  | none => row

/-- The row of a record: its fields among the columns. -/
def ofRecord (columns : List Column) (record : Record) : Row :=
  columns.foldl (fun row column =>
    match column with
    | .field key field => row.insert? key (record.cell? field)
    | .applied _ => row) empty

/-- The answer's row: the cells under the columns in their order, a repeated column once. A cell
that is missing has no value. -/
def project (columns : List Column) (row : Row) : OutputRow :=
  assignAll (columns.map fun column =>
    (column.key, ((row.get? column.key).map Cell.toJson).getD .null))

end Row

end CampusQuery
