import CampusQuery.Display.Mode
/-!
The prompt of the shell.
-/

namespace CampusQuery.Shell

/-- A text in a style of the terminal, which ends with it. -/
def styled (code : String) (text : String) : String :=
  "\x1b[" ++ code ++ "m" ++ text ++ "\x1b[0m"

/-- The prompt: the form of output where it is not the table, and the number of queries so far. On
the further lines of a query three points stand in line with it. -/
def prompt (continuing : Bool) (queries : Nat) (mode : OutputMode) (colors : Bool) : String :=
  let mode := if mode = .table then "" else ":" ++ mode.name
  let count := s!"[{queries}]"
  if continuing then
    let width := ("insight" ++ mode ++ count ++ ">").length
    let dots := .ofList (List.replicate (width - 3) ' ') ++ "... "
    if colors then styled "90" dots else dots
  else if colors then
    styled "1;96" "insight" ++ styled "95" mode ++ styled "90" count ++ "> "
  else "insight" ++ mode ++ count ++ "> "

example : prompt false 12 .json false = "insight:json[12]> " ∧
    prompt true 12 .json false = "              ... " := by decide +kernel

end CampusQuery.Shell
