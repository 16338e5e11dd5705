import CampusQuery.Query
/-!
What can be wrong with a query, and how it is said.
-/

namespace CampusQuery

/-- The parts of a query that must have a certain shape. -/
inductive QueryPart
  | query
  | condition
  | filter
  | conjunction
  | disjunction
  | comparison (op : Comparator)
  | match
  | transformations
  | group
  | apply
  | applyRule
  | applyBody
  | options
  | columns
  | orderKeys
deriving DecidableEq, Repr

/-- The first thing in a query that is against its grammar. -/
inductive QueryFault
  | notObject (part : QueryPart)
  | notArray (part : QueryPart)
  | emptyArray (part : QueryPart)
  | entryNotText (part : QueryPart)
  | memberCount (part : QueryPart) (count : Nat)
  | missing (part : QueryPart)
  | unexpectedMember (key : String)
  | unexpectedOption (key : String)
  | unknownFilter (key : String)
  | noDelimiter (key : String)
  | blankDataset (key : String)
  | unknownField (key : String)
  | secondDataset (first second : String)
  | foreignField (field : Field) (kind : Kind)
  | comparisonOfText (op : Comparator) (key : String)
  | comparandNotNumber (op : Comparator)
  | matchOfNumber (key : String)
  | patternNotText
  | strayAsterisk (pattern : String)
  | transformationsMembers
  | emptyApplyKey
  | delimiterInApplyKey (key : String)
  | repeatedApplyKey (key : String)
  | unknownAggregate (word : String)
  | targetNotText
  | aggregateOfText (aggregate : Aggregate) (key : String)
  | unknownColumn (key : String)
  | orderNotColumn (key : String)
  | orderShape
  | orderMembers
  | orderDirection
  | noDataset
deriving DecidableEq, Repr

namespace QueryPart

/-- The name of a part in messages. -/
def name : QueryPart → String
  | query => "query"
  | condition => "WHERE"
  | filter => "filter"
  | conjunction => "AND"
  | disjunction => "OR"
  | comparison op => op.word
  | .match => "IS"
  | transformations => "TRANSFORMATIONS"
  | group => "GROUP"
  | apply => "APPLY"
  | applyRule => "APPLY rule"
  | applyBody => "APPLY body"
  | options => "OPTIONS"
  | columns => "COLUMNS"
  | orderKeys => "ORDER keys"

end QueryPart

namespace QueryFault

def message : QueryFault → String
  | notObject part => s!"{part.name} must be an object"
  | notArray part => s!"{part.name} must be an array"
  | emptyArray part => s!"{part.name} must be a non-empty array"
  | entryNotText part => s!"{part.name} entries must be strings"
  | memberCount part count => s!"{part.name} must have exactly one key, found {count}"
  | missing part => s!"missing {part.name}"
  | unexpectedMember key => s!"unexpected top-level key '{key}'"
  | unexpectedOption key => s!"unexpected OPTIONS key '{key}'"
  | unknownFilter key => s!"invalid filter key '{key}'"
  | noDelimiter key => s!"invalid key '{key}'"
  | blankDataset key => s!"key '{key}' has an empty dataset id"
  | unknownField key => s!"key '{key}' names an unknown field"
  | secondDataset first second =>
    s!"query references multiple datasets: '{first}' and '{second}'"
  | foreignField field kind => s!"field '{field.key}' does not belong to a {kind.name} dataset"
  | comparisonOfText op key => s!"{op.word} needs a numeric field, got '{key}'"
  | comparandNotNumber op => s!"{op.word} value must be a number"
  | matchOfNumber key => s!"IS needs a string field, got '{key}'"
  | patternNotText => "IS value must be a string"
  | strayAsterisk pattern => s!"invalid wildcard usage in '{pattern}'"
  | transformationsMembers => "TRANSFORMATIONS must contain exactly GROUP and APPLY"
  | emptyApplyKey => "APPLY key must not be empty"
  | delimiterInApplyKey key => s!"APPLY key '{key}' must not contain '{delimiter}'"
  | repeatedApplyKey key => s!"duplicate APPLY key '{key}'"
  | unknownAggregate word => s!"invalid APPLY token '{word}'"
  | targetNotText => "APPLY target must be a key string"
  | aggregateOfText aggregate key => s!"{aggregate.name} needs a numeric field, got '{key}'"
  | unknownColumn key => s!"COLUMNS key '{key}' is neither a GROUP nor an APPLY key"
  | orderNotColumn key => s!"ORDER key '{key}' must be in COLUMNS"
  | orderShape => "ORDER must be a string or an object"
  | orderMembers => "ORDER must contain exactly dir and keys"
  | orderDirection => "ORDER dir must be UP or DOWN"
  | noDataset => "query references no dataset"

end QueryFault

end CampusQuery
