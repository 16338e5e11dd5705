import CampusQuery.Answer.Row
import CampusQuery.Display.Csv
import CampusQuery.Display.Mode
import CampusQuery.Display.Table
import CampusQuery.Json.Writer
/-!
Rows of answers in the three forms.
-/

namespace CampusQuery.Display

/-- The columns of the first row. -/
def header (rows : List OutputRow) : List String :=
  (rows.head?.map fun row => row.map (·.1)).getD []

/-- The text of a cell: strings as they are, nothing for null, and JSON for all else. -/
def cellText : Json → String
  | .string s => s
  | .null => ""
  | j => j.compact

/-- The texts of the cells of a row. -/
def cellTexts (row : OutputRow) : List String :=
  row.map fun (_, j) => cellText j

def tableText (rows : List OutputRow) : String :=
  drawTable (header rows) (rows.map cellTexts)

def jsonText (rows : List OutputRow) : String :=
  (Json.array (rows.map .object)).pretty

/-- None if rows differ in length. Without columns there is no text. -/
def csvText? (rows : List OutputRow) : Option String :=
  if (header rows).isEmpty then some ""
  else Display.csvTextOf? (header rows) (rows.map cellTexts)

end CampusQuery.Display
