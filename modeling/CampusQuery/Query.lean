import CampusQuery.Dataset
/-!
Queries over one dataset, as typed trees.
-/

namespace CampusQuery

/-- How a comparison relates the number of a record to the number of the query. -/
inductive Comparator
  | lt
  | gt
  | eq
deriving DecidableEq, Repr

/-- A text with an asterisk at neither end, at its end, at its start, or at both. -/
inductive Pattern
  | exactly (text : String)
  | startsWith (text : String)
  | endsWith (text : String)
  | contains (text : String)
deriving DecidableEq, Repr

/-- Which records a query is about. -/
inductive Filter
  | all
  | and (parts : List Filter)
  | or (parts : List Filter)
  | not (part : Filter)
  | compare (op : Comparator) (field : Field) (value : Double)
  | is (field : Field) (pattern : Pattern)
deriving Inhabited

/-- What is computed from the values of a group. -/
inductive Aggregate
  | max
  | min
  | avg
  | sum
  | count
deriving DecidableEq, Repr

/-- A field that records are grouped by, under its key in the query. -/
structure GroupKey where
  key : String
  field : Field
deriving DecidableEq, Repr

/-- A value computed for each group, under the key that the query gives it. -/
structure ApplyRule where
  key : String
  aggregate : Aggregate
  field : Field
deriving DecidableEq, Repr

structure Transform where
  group : List GroupKey
  apply : List ApplyRule
deriving DecidableEq, Repr

/-- A column of the answer: a field, or a computed value. -/
inductive Column
  | field (key : String) (field : Field)
  | applied (key : String)
deriving DecidableEq, Repr

inductive Direction
  | up
  | down
deriving DecidableEq, Repr

/-- Rows are sorted by the cells under the keys, the first key first. -/
structure SortOrder where
  direction : Direction
  keys : List String
deriving DecidableEq, Repr

structure Options where
  columns : List Column
  order : Option SortOrder
deriving DecidableEq, Repr

structure Query where
  dataset : String
  kind : Kind
  filter : Filter
  transform : Option Transform
  options : Options

namespace Comparator

/-- The word of a query. -/
def word : Comparator → String
  | lt => "LT"
  | gt => "GT"
  | eq => "EQ"

/-- The comparison of two doubles, which no NaN satisfies. -/
def holds (op : Comparator) (x y : Double) : Bool :=
  match op with
  | lt => x.lt y
  | gt => y.lt x
  | eq => x.eq y

end Comparator

namespace Aggregate

/-- The aggregate of a word. -/
def ofWord? : String → Option Aggregate
  | "MAX" => some max
  | "MIN" => some min
  | "AVG" => some avg
  | "SUM" => some sum
  | "COUNT" => some count
  | _ => none

/-- The name in messages. -/
def name : Aggregate → String
  | max => "Max"
  | min => "Min"
  | avg => "Avg"
  | sum => "Sum"
  | count => "Count"

/-- Only numbers can be aggregated, but values of any field can be counted. -/
def needsNumber : Aggregate → Bool
  | count => false
  | _ => true

end Aggregate

namespace Column

def key : Column → String
  | field key _ => key
  | applied key => key

end Column

namespace Pattern

/-- `part` stands somewhere in the text. -/
def occursIn (part : List Char) : List Char → Bool
  | [] => part.isEmpty
  | c :: l => part.isPrefixOf (c :: l) || occursIn part l

def matchesText : Pattern → String → Bool
  | exactly p, s => s == p
  | startsWith p, s => p.toList.isPrefixOf s.toList
  | endsWith p, s => p.toList.isSuffixOf s.toList
  | contains p, s => occursIn p.toList s.toList

/-- The pattern of a text in a query. Asterisks may stand at its ends only; a text of asterisks
alone matches everything. -/
def ofText? (s : String) : Option Pattern :=
  let leading := s.toList.head? = some '*'
  let rest := if leading then s.toList.tail else s.toList
  let trailing := rest.getLast? = some '*'
  let core := if trailing then rest.dropLast else rest
  if '*' ∈ core then none
  else if leading then
    if trailing ∨ core = [] then some (.contains (.ofList core))
    else some (.endsWith (.ofList core))
  else if trailing then
    if core = [] then some (.contains (.ofList core)) else some (.startsWith (.ofList core))
  else some (.exactly (.ofList core))

example : ["*", "**", "a*", "*a", "*a*", "a", ""].map ofText? =
    [some (.contains ""), some (.contains ""), some (.startsWith "a"), some (.endsWith "a"),
      some (.contains "a"), some (.exactly "a"), some (.exactly "")] := by decide

example : ["***", "a*b", "*a*b"].map ofText? = [none, none, none] := by decide

end Pattern

end CampusQuery
