import CampusQuery.Answer.Grouping
import CampusQuery.Answer.Matching
import CampusQuery.Answer.Sorting
/-!
Answers: condition, grouping, order, columns, with a limit on the number of rows.
-/

namespace CampusQuery

/-- The limit on rows where nothing else is said. -/
def defaultLimit : Nat :=
  5000

/-- Refuses more rows than the limit. -/
def checkLimit (rows limit : Nat) : Except AnswerFault Unit :=
  if limit < rows then .error (.tooLarge rows limit) else .ok ()

namespace Options

/-- Rows in the order that is asked for. -/
def sorted (options : Options) (rows : List Row) : List Row :=
  match options.order with
  | some order => order.sort rows
  | none => rows

/-- The answer that rows make: within the limit, in order, with the columns. -/
def present (options : Options) (limit : Nat) (rows : List Row) :
    Except AnswerFault (List OutputRow) := do
  checkLimit rows.length limit
  return (options.sorted rows).map (Row.project options.columns)

end Options

namespace Query

/-- The rows of the records or groups that the query is about. -/
def rows (q : Query) (limit : Nat) (records : List Record) : Except AnswerFault (List Row) := do
  let matched := q.filter.matching records
  match q.transform with
  | some t => t.rows matched
  | none =>
    checkLimit matched.length limit
    return matched.map (Row.ofRecord q.options.columns)

/-- The answer of a query over records. -/
def execute (q : Query) (limit : Nat) (records : List Record) :
    Except AnswerFault (List OutputRow) := do
  q.options.present limit (← q.rows limit records)

end Query

end CampusQuery
