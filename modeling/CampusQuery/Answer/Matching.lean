import CampusQuery.Query
import Std.Data.HashSet
/-!
Which records satisfy a condition.

A condition is evaluated to a set of natural identifiers, its connectives to the operations on
sets, and the records of an answer are those whose identifier is in the set.
-/

namespace CampusQuery

/-- Natural identifiers. -/
abbrev IdSet :=
  Std.HashSet String

namespace Filter

/-- The identifiers of all records. -/
def allIds (records : List Record) : IdSet :=
  .ofList (records.map Record.naturalId)

/-- The identifiers of the records that pass a test. -/
def idsWhere (test : Record → Bool) (records : List Record) : IdSet :=
  .ofList ((records.filter test).map Record.naturalId)

/-- What is in every set; nothing where there is no set. -/
def meet : List IdSet → IdSet
  | [] => ∅
  | first :: rest => rest.foldl (fun acc set => acc.filter set.contains) first

/-- What is in some set. -/
def join (sets : List IdSet) : IdSet :=
  sets.foldl (· ∪ ·) ∅

mutual
/-- The identifiers of the records that satisfy a condition. -/
def evaluate (records : List Record) : Filter → IdSet
  | .all => allIds records
  | .compare op field value =>
    idsWhere (fun r => (r.number? field).any (op.holds · value)) records
  | .is field pattern => idsWhere (fun r => (r.text? field).any pattern.matchesText) records
  | .not part =>
    let excluded := evaluate records part
    (allIds records).filter fun id => !excluded.contains id
  | .and parts => meet (evaluateAll records parts)
  | .or parts => join (evaluateAll records parts)

@[inherit_doc evaluate]
def evaluateAll (records : List Record) : List Filter → List IdSet
  | [] => []
  | f :: parts => evaluate records f :: evaluateAll records parts
end

/-- The records whose identifier is among those that satisfy the condition, in their order. -/
def matching (f : Filter) (records : List Record) : List Record :=
  match f with
  | .all => records
  | f =>
    let ids := evaluate records f
    records.filter fun r => ids.contains r.naturalId

end Filter

end CampusQuery
