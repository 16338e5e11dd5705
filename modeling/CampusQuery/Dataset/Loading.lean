import CampusQuery.Dataset.Record
import CampusQuery.Json.Outline
/-!
Records from the text of a file: a JSON array, of which the items that are records are kept.
-/

namespace CampusQuery.Record

/-- Why a text holds no list of records. -/
inductive LoadFault
  | notJson
  | notArray
deriving DecidableEq, Repr

/-- The records among the items of an array, in order. -/
def ofText (text : String) : Except LoadFault (List Record) :=
  match Json.read text with
  | .ok (.array items) => .ok (items.filterMap ofJson?)
  | .ok _ => .error .notArray
  | .error _ => .error .notJson

end CampusQuery.Record
