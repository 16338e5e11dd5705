import CampusQuery.Json
import CampusQuery.Dataset.Field
/-!
Cells: the single values of records and rows.
-/

namespace CampusQuery

/-- A number or a text. -/
inductive Cell
  | number (x : Double)
  | text (s : String)
deriving DecidableEq, Inhabited

namespace Cell

/-- The order that sorting uses: numbers by their places, texts by code points, and every number
before every text. -/
def compare : Cell → Cell → Ordering
  | number x, number y => Ord.compare x.ordinal y.ordinal
  | text s, text t => Ord.compare s t
  | number _, text _ => .lt
  | text _, number _ => .gt

/-- What cells that compare as equal have in common. -/
inductive Class
  | number (ordinal : Int)
  | text (s : String)
deriving DecidableEq, Hashable

/-- The class of a cell, by which records are grouped and values counted. -/
def toClass : Cell → Class
  | number x => .number x.ordinal
  | text s => .text s

/-- The value in an answer: a whole number below `2 ^ 63` in size is written without places, and a
number that is not finite has no value. -/
def toJson : Cell → Json
  | text s => .string s
  | number x =>
    match x.toInt? with
    | some n => if n.natAbs < 0x8000000000000000 then .int n else .ofDouble x
    | none => .ofDouble x

end Cell

end CampusQuery
