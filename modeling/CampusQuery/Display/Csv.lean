/-!
Comma-separated values, with line feeds at the ends of records.
-/

namespace CampusQuery.Display

/-- The character must stand in quotes. -/
def needsQuotes (c : Char) : Bool :=
  c = ',' ∨ c = '"' ∨ c = '\n' ∨ c = '\r'

/-- A field between quotes, those inside it doubled. -/
def csvQuoted (field : List Char) : List Char :=
  '"' :: (field.flatMap fun c => if c = '"' then ['"', '"'] else [c]) ++ ['"']

/-- A field as it stands in a record. -/
def csvField (field : List Char) : List Char :=
  if field.any needsQuotes then csvQuoted field else field

/-- A record. The record of one empty field is written with quotes, so that it is no empty line. -/
def csvRecord (fields : List (List Char)) : List Char :=
  (if fields = [[]] then csvQuoted [] else [','].intercalate (fields.map csvField)) ++ ['\n']

/-- The text of records, which must all have as many fields as the header. -/
def csvTextOf? (header : List String) (rows : List (List String)) : Option String :=
  if rows.all (·.length == header.length) then
    some (.ofList ((header :: rows).flatMap fun row => csvRecord (row.map String.toList)))
  else none

example : csvTextOf? ["a,b", "c"] [["", "say \"x\""]] = some "\"a,b\",c\n,\"say \"\"x\"\"\"\n" := by
  decide +kernel

example : csvTextOf? ["a"] [[""]] = some "a\n\"\"\n" ∧ csvTextOf? ["a"] [["x", "y"]] = none := by
  decide +kernel

end CampusQuery.Display
