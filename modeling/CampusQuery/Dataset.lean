import CampusQuery.Dataset.Record
import CampusQuery.Text.Blank
import Std.Data.HashSet
/-!
Datasets: named lists of records of one kind, with the rule for their names and the choice of the
records that are kept.
-/

namespace CampusQuery

/-- A dataset with all of its records. -/
structure Dataset where
  id : String
  kind : Kind
  records : List Record
deriving Inhabited

/-- The entry of a dataset in a listing. -/
structure DatasetInfo where
  id : String
  kind : Kind
  rows : Nat
deriving DecidableEq, Repr, Inhabited

/-- Stands between the dataset and the field in the keys of a query, as in `ubc_avg`. -/
def delimiter : Char :=
  '_'

/-- Why a text is no name of a dataset. -/
inductive IdFault
  | blank
  | holdsDelimiter (id : String)
deriving DecidableEq, Repr

namespace Dataset

/-- Names have a character that is not blank, and no delimiter. -/
def checkId (id : String) : Except IdFault Unit :=
  if Text.allBlank id then .error .blank
  else if delimiter ∈ id.toList then .error (.holdsDelimiter id)
  else .ok ()

def info (d : Dataset) : DatasetInfo :=
  ⟨d.id, d.kind, d.records.length⟩

end Dataset

/-- What is chosen of the records that have been read. -/
structure Selection where
  /-- The natural identifiers of the chosen records. -/
  seen : Std.HashSet String
  /-- The chosen records, the latest first. -/
  chosen : List Record

namespace Selection

def empty : Selection :=
  ⟨∅, []⟩

/-- The next record. One of the other kind leaves no trace, and one of the kind is chosen if its
natural identifier is new. -/
def push (kind : Kind) (s : Selection) (r : Record) : Selection :=
  if r.kind ≠ kind then s
  else if s.seen.contains r.naturalId then s
  else ⟨s.seen.insert r.naturalId, r :: s.chosen⟩

end Selection

namespace Dataset

/-- The records of a kind, the first with each natural identifier. -/
def usable (kind : Kind) (records : List Record) : List Record :=
  (records.foldl (Selection.push kind) .empty).chosen.reverse

end Dataset

namespace DatasetInfo

def toJson (i : DatasetInfo) : Json :=
  .object [("id", .string i.id), ("kind", .string i.kind.name), ("numRows", .int i.rows)]

end DatasetInfo

example : (Dataset.checkId "my dataset").isOk = true ∧ (Dataset.checkId "\u3000\t").isOk = false ∧
    (Dataset.checkId "ubc_2020").isOk = false := by decide

end CampusQuery
