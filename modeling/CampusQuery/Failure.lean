import CampusQuery.Answer.Grouping
import CampusQuery.Query.Fault
import CampusQuery.Storage.Directory
/-!
The ways in which an operation can fail, with their kinds and wordings.
-/

namespace CampusQuery

/-- What is wrong with the file of a dataset. -/
inductive StorageFault
  | unparsable (id : String)
  | misplaced (id holds : String)
  | sizeMismatch (id : String) (declared held : Nat)
  | kindMismatch (id : String) (kind : Kind)
deriving DecidableEq

/-- What is wrong with a configuration file. -/
inductive ConfigFault
  | malformed
  | limitNotPositive
deriving DecidableEq

inductive Failure
  | badId (fault : IdFault)
  | query (fault : QueryFault)
  | answer (fault : AnswerFault)
  | noUsableRecords (kind : Kind)
  | kindMismatch (id : String) (holds uses : Kind)
  | notFound (id : String)
  | conflict (id : String)
  | file (fault : Storage.FileFault)
  | storage (fault : StorageFault)
  | config (fault : ConfigFault)
deriving DecidableEq

namespace IdFault

def message : IdFault → String
  | blank => "dataset id must not be empty or whitespace"
  | holdsDelimiter id => s!"dataset id '{id}' must not contain '{delimiter}'"

end IdFault

namespace StorageFault

def message : StorageFault → String
  | unparsable id => s!"Failed to parse dataset '{id}': not the file of a dataset"
  | misplaced id holds => s!"dataset file for '{id}' holds '{holds}'"
  | sizeMismatch id declared held => s!"dataset '{id}' declares {declared} records but holds {held}"
  | kindMismatch id kind => s!"dataset '{id}' holds records that are not {kind.name}"

end StorageFault

namespace ConfigFault

def message : ConfigFault → String
  | malformed => "not a table of settings"
  | limitNotPositive => "max_results must be positive"

end ConfigFault

namespace Failure

/-- The short name of a kind of failure. -/
def kind : Failure → String
  | answer (.tooLarge _ _) => "result_too_large"
  | badId _ | query _ | answer _ | noUsableRecords _ | kindMismatch _ _ _ => "invalid_request"
  | notFound _ => "not_found"
  | conflict _ => "conflict"
  | file _ => "io_error"
  | storage _ => "storage_error"
  | config _ => "config_error"

/-- The full wording. -/
def message : Failure → String
  | badId fault => s!"Invalid request: {fault.message}"
  | query fault => s!"Invalid request: {fault.message}"
  | answer (.inexact x) => s!"Invalid request: {x.plainText} cannot be aggregated exactly"
  | answer .sumOverflow => "Invalid request: sum overflowed"
  | answer (.averageOverflow key) => s!"Invalid request: {key} overflowed"
  | answer (.tooLarge rows limit) =>
    s!"Result too large: {rows} rows exceeds the limit of {limit}"
  | noUsableRecords kind => s!"Invalid request: content contains no usable {kind.name} records"
  | kindMismatch id holds uses =>
    s!"Invalid request: dataset '{id}' holds {holds.name}, but the query uses {uses.name} fields"
  | notFound id => s!"Not found: dataset '{id}'"
  | conflict id => s!"Conflict: dataset '{id}' already exists"
  | file fault => s!"IO error: {fault.message}"
  | storage fault => s!"Storage error: {fault.message}"
  | config fault => s!"Configuration error: {fault.message}"

end Failure

end CampusQuery
