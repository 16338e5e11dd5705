/-!
The forms in which rows can be shown.
-/

namespace CampusQuery

inductive OutputMode
  | table
  | json
  | csv
deriving DecidableEq, Repr, Inhabited

namespace OutputMode

def name : OutputMode → String
  | table => "table"
  | json => "json"
  | csv => "csv"

/-- A letter of ASCII in lower case; other characters stay. -/
def lowerChar (c : Char) : Char :=
  if 'A' ≤ c ∧ c ≤ 'Z' then Char.ofNat (c.toNat + 32) else c

/-- The form of a name in letters of either case. -/
def ofName? (s : String) : Option OutputMode :=
  let lower := s.toList.map lowerChar
  [table, json, csv].find? (·.name.toList == lower)

/-- What is said of a name that no form has. -/
def unknownMessage (s : String) : String :=
  s!"Unknown mode: {s} (expected table, json or csv)"

example : ["JSON", "csv", "tablE", "json ", "ſ"].map ofName? =
    [some json, some csv, some table, none, none] := by decide

end OutputMode

end CampusQuery
