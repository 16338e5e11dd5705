/-!
Named values in order: lists of names and values in which a name stands once.
-/

namespace CampusQuery

variable {α : Type}

/-- Gives `key` a value, at its place if it has one and else at the end. -/
def assign (key : String) (value : α) : List (String × α) → List (String × α)
  | [] => [(key, value)]
  | (k, v) :: entries =>
    if k = key then (k, value) :: entries else (k, v) :: assign key value entries

/-- Entries one after the other, the last value of a name standing at its first place. -/
def assignAll (entries : List (String × α)) : List (String × α) :=
  entries.foldl (fun acc (key, value) => assign key value acc) []

example : assignAll [("a", 1), ("b", 2), ("a", 3)] = [("a", 3), ("b", 2)] := by decide

end CampusQuery
