import CampusQuery.Text.Width
/-!
Tables drawn with lines.

A cell may have several lines; the columns are as wide as their widest line and at least one wide,
and a row is as high as its highest cell.
-/

namespace CampusQuery.Display

/-- The characters of a horizontal line. -/
structure Border where
  left : Char
  line : Char
  between : Char
  right : Char

namespace Border

def top : Border :=
  ⟨'┌', '─', '┬', '┐'⟩

def underHeader : Border :=
  ⟨'╞', '═', '╪', '╡'⟩

def betweenRows : Border :=
  ⟨'├', '╌', '┼', '┤'⟩

def bottom : Border :=
  ⟨'└', '─', '┴', '┘'⟩

/-- A horizontal line over columns of the given widths. -/
def draw (b : Border) (widths : List Nat) : List Char :=
  b.left :: [b.between].intercalate (widths.map fun w => List.replicate (w + 2) b.line) ++ [b.right]

end Border

/-- The lines of a cell, a line feed at the end making an empty one. -/
def cellLines (text : List Char) : List (List Char) :=
  text.splitOn '\n'

/-- A cell of each column, those that are missing being empty. -/
def fill {α : Type} (columns : Nat) (missing : α) (cells : List α) : List α :=
  cells ++ List.replicate (columns - cells.length) missing

/-- The widths of the columns. -/
def columnWidths (columns : Nat) (rows : List (List (List (List Char)))) : List Nat :=
  (List.range columns).map fun i =>
    let lines := rows.flatMap fun row => row.getD i []
    (lines.map Text.width).foldl max 1

/-- One line of a row. -/
def drawLine (widths : List Nat) (cells : List (List Char)) : List Char :=
  let padded := (widths.zip cells).map fun (w, cell) =>
    ' ' :: cell ++ List.replicate (w + 1 - Text.width cell) ' '
  '│' :: ['┆'].intercalate padded ++ ['│']

/-- The lines of a row. -/
def drawRow (widths : List Nat) (cells : List (List (List Char))) : List (List Char) :=
  let height := (cells.map List.length).foldl max 0
  (List.range height).map fun i => drawLine widths (cells.map fun lines => lines.getD i [])

/-- The table of a header and rows, without a line feed at its end. -/
def drawTable (header : List String) (rows : List (List String)) : String :=
  let columns := ((header :: rows).map List.length).foldl max 0
  let cells (row : List String) : List (List (List Char)) :=
    fill columns [[]] (row.map fun s => cellLines s.toList)
  let header := cells header
  let rows := rows.map cells
  let widths := columnWidths columns (header :: rows)
  let body := [Border.betweenRows.draw widths].intercalate (rows.map (drawRow widths))
  let lines := Border.top.draw widths :: drawRow widths header ++
    Border.underHeader.draw widths :: body ++ [Border.bottom.draw widths]
  .ofList (['\n'].intercalate lines)

example : drawTable [] [] = "┌┐\n╞╡\n└┘" := by decide

example : drawTable ["a", "b"] [["two\nlines"]] =
    "┌───────┬───┐\n│ a     ┆ b │\n╞═══════╪═══╡\n│ two   ┆   │\n│ lines ┆   │\n└───────┴───┘" := by
  decide +kernel

end CampusQuery.Display
