import CampusQuery.Answer.Row
import CampusQuery.Decimal
import CampusQuery.Distinct
import Std.Data.HashMap
/-!
Groups of records and the values computed for them.

Records with the same classes of cells in the fields they are grouped by form a group; groups stand
in the order of their first records. Sums and averages are computed in exact decimals.
-/

namespace CampusQuery

/-- Why a query that is valid has no answer. -/
inductive AnswerFault
  /-- A number is no decimal. -/
  | inexact (x : Double)
  | sumOverflow
  | averageOverflow (key : String)
  | tooLarge (rows limit : Nat)
deriving DecidableEq

namespace Aggregate

/-- The exact sum of numbers, from left to right. -/
def exactSum (numbers : List Double) : Except AnswerFault Decimal :=
  numbers.foldlM (fun sum x => do
    let some d := Decimal.ofDouble? x | throw (.inexact x)
    let some sum := sum.add? d | throw .sumOverflow
    return sum) .zero

/-- The classes that occur in a field. -/
def classes (field : Field) (members : List Record) : List Cell.Class :=
  distinctBy id (members.filterMap fun r => (r.cell? field).map Cell.toClass)

/-- The value of a rule for a group. Sums and averages have two places, and an average is over all
members of the group. -/
def value (rule : ApplyRule) (members : List Record) : Except AnswerFault Double :=
  let numbers := members.filterMap (·.number? rule.field)
  match rule.aggregate with
  | max => return numbers.foldl Double.max Double.negInfinity
  | min => return numbers.foldl Double.min Double.posInfinity
  | sum => return (← exactSum numbers).toCents.toDouble
  | avg => do
    let sum ← exactSum numbers
    if members.isEmpty then throw (.averageOverflow rule.key)
    return (sum.divide members.length).toCents.toDouble
  | count => return .ofInt (classes rule.field members).length

end Aggregate

namespace Transform

/-- What the members of a group have in common: the classes of the cells in the fields they are
grouped by. -/
def groupKey (t : Transform) (r : Record) : List (Option Cell.Class) :=
  t.group.map fun g => (r.cell? g.field).map Cell.toClass

/-- The records under their keys, each list in the order of the records. -/
def buckets (t : Transform) (records : List Record) :
    Std.HashMap (List (Option Cell.Class)) (List Record) :=
  records.foldr (fun r m => m.insert (t.groupKey r) (r :: m.getD (t.groupKey r) [])) ∅

/-- The groups in the order of their first members. -/
def groups (t : Transform) (records : List Record) : List (List Record) :=
  let buckets := t.buckets records
  (distinctBy t.groupKey records).map fun r => buckets.getD (t.groupKey r) []

/-- The row of a group: the cells of its first member that it is grouped by, and the values of the
rules. -/
def groupRow (t : Transform) (members : List Record) : Except AnswerFault Row := do
  let first := t.group.foldl (fun row g =>
    row.insert? g.key (members.head?.bind (·.cell? g.field))) Row.empty
  t.apply.foldlM (fun row rule => do
    return row.insert rule.key (.number (← Aggregate.value rule members))) first

/-- The rows of the groups. -/
def rows (t : Transform) (records : List Record) : Except AnswerFault (List Row) :=
  (t.groups records).mapM t.groupRow

end Transform

end CampusQuery
