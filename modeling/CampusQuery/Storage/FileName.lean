import CampusQuery.Storage.Digest
/-!
The names of files in a data directory.

A dataset is in the file whose stem is the hexadecimal form of its name, or a digest of the name
where that form is too long. What starts with a point is never a dataset, and is a leftover of an
interrupted write if it also ends in `.tmp`.
-/

namespace CampusQuery.Storage

/-- Hexadecimal forms up to this length are stems. -/
def longestHexStem : Nat :=
  128

/-- The stem of the file of a dataset. The digest is marked, so that no hexadecimal form is one. -/
def stemOf (id : String) : String :=
  let bytes := id.toUTF8.data.toList
  if (hex bytes).length ≤ longestHexStem then .ofList (hex bytes)
  else "id-" ++ .ofList (hex (nameIdentifier bytes))

/-- The name of the file of a dataset. -/
def fileName (id : String) : String :=
  stemOf id ++ ".json"

/-- The parts of a name before and behind its last point, where both the point and something before
it are there. -/
def splitExtension? (name : List Char) : Option (List Char × List Char) :=
  let extension := (name.reverse.takeWhile (· ≠ '.')).reverse
  let stem := name.take (name.length - extension.length - 1)
  if '.' ∈ name ∧ stem ≠ [] ∧ name ≠ ['.', '.'] then some (stem, extension) else none

/-- The stem of a name that may be the name of a dataset's file. -/
def datasetStem? (name : String) : Option String :=
  match splitExtension? name.toList with
  | some (stem, extension) =>
    if extension = ['j', 's', 'o', 'n'] ∧ stem.head? ≠ some '.' then some (.ofList stem) else none
  | none => none

/-- The name under which a file is written before it is complete. `mark`, of thirty-two characters,
tells writes of the same file apart. -/
def temporaryName (stem mark : String) : String :=
  "." ++ stem ++ "." ++ mark ++ ".tmp"

/-- The name of a temporary file of a dataset, with a mark of the length that marks have. -/
def anyTemporaryName (id : String) : String :=
  temporaryName (stemOf id) (.ofList (List.replicate 32 '0'))

/-- The name of a leftover of an interrupted write. -/
def isLeftover (name : String) : Bool :=
  name.toList.head? == some '.' && ['.', 't', 'm', 'p'].isSuffixOf name.toList

example : fileName "ubc" = "756263.json" := by decide +kernel

example : [".json", "a.json", "a.b.json", ".a.json", "a.JSON", "json", "a."].map datasetStem? =
    [none, some "a", some "a.b", none, none, none, none] := by decide

example : [".tmp", ".a.tmp", "a.tmp", ".a.tmp.json"].map isLeftover =
    [true, true, false, false] := by decide

end CampusQuery.Storage
