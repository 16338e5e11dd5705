import CampusQuery.Query.Fault
/-!
From JSON to queries.

One walk over the value both checks it and builds the typed query. Keys of fields name a dataset;
the first of them settles which dataset, and which kind of it, the query is about, and all others
have to agree. The walk stops at the first fault.
-/

namespace CampusQuery

/-- What a query is about. -/
structure Subject where
  dataset : String
  kind : Kind
deriving DecidableEq, Repr

/-- A step of the walk: it may settle the subject, and it may find a fault. -/
abbrev Check (α : Type) :=
  StateT (Option Subject) (Except QueryFault) α

namespace Check

/-- The parts of a key before and behind its first delimiter. -/
def splitKey? (key : String) : Option (String × String) :=
  let name := key.toList.takeWhile (· ≠ delimiter)
  match key.toList.drop name.length with
  | [] => none
  | _ :: field => some (.ofList name, .ofList field)

/-- The field of a key such as `ubc_avg`, which must be one of the subject. -/
def fieldKey (key : String) : Check Field := do
  let some (name, fieldName) := splitKey? key | throw (.noDelimiter key)
  if Text.allBlank name then throw (.blankDataset key)
  let some field := Field.ofKey? fieldName | throw (.unknownField key)
  match ← get with
  | none => set (some (Subject.mk name field.kind))
  | some subject =>
    if subject.dataset ≠ name then throw (.secondDataset subject.dataset name)
    if subject.kind ≠ field.kind then throw (.foreignField field subject.kind)
  return field

/-- The members of an object. -/
def members (part : QueryPart) : Json → Check (List (String × Json))
  | .object members => pure members
  | _ => throw (.notObject part)

/-- The only member of an object. -/
def member (part : QueryPart) (j : Json) : Check (String × Json) := do
  match ← members part j with
  | [entry] => return entry
  | entries => throw (.memberCount part entries.length)

/-- The items of an array that has some. -/
def someItems (part : QueryPart) : Json → Check (List Json)
  | .array [] => throw (.emptyArray part)
  | .array items => pure items
  | _ => throw (.notArray part)

/-- The entries of an array that has some, all of them texts. -/
def someTexts (part : QueryPart) (j : Json) : Check (List String) := do
  (← someItems part j).mapM fun
    | .string s => pure s
    | _ => throw (.entryNotText part)

/-- The comparison of a field with a number. -/
def comparison (op : Comparator) (body : Json) : Check Filter := do
  let (key, value) ← member (.comparison op) body
  let field ← fieldKey key
  if !field.isNumeric then throw (.comparisonOfText op key)
  let .number n := value | throw (.comparandNotNumber op)
  return .compare op field n.toDouble

/-- The match of a field with a pattern. -/
def textMatch (body : Json) : Check Filter := do
  let (key, value) ← member .match body
  let field ← fieldKey key
  if field.isNumeric then throw (.matchOfNumber key)
  let .string s := value | throw .patternNotText
  let some pattern := Pattern.ofText? s | throw (.strayAsterisk s)
  return .is field pattern

mutual
/-- A condition: an object whose one member says what it is. -/
def filter : Json → Check Filter
  | .object [(key, body)] =>
    if key = "AND" then return .and (← branches .conjunction body)
    else if key = "OR" then return .or (← branches .disjunction body)
    else if key = "NOT" then return .not (← filter body)
    else if key = "LT" then comparison .lt body
    else if key = "GT" then comparison .gt body
    else if key = "EQ" then comparison .eq body
    else if key = "IS" then textMatch body
    else throw (.unknownFilter key)
  | .object members => throw (.memberCount .filter members.length)
  | _ => throw (.notObject .filter)

/-- The conditions under a connective, at least one. -/
def branches (part : QueryPart) : Json → Check (List Filter)
  | .array [] => throw (.emptyArray part)
  | .array items => filters items
  | _ => throw (.notArray part)

@[inherit_doc branches]
def filters : List Json → Check (List Filter)
  | [] => pure []
  | j :: items => do
    let f ← filter j
    return f :: (← filters items)
end

/-- The condition of a query; none is needed. -/
def condition : Json → Check Filter
  | .object [] => pure .all
  | .object members => filter (.object members)
  | _ => throw (.notObject .condition)

/-- The keys that records are grouped by. -/
def groupKeys (j : Json) : Check (List GroupKey) := do
  (← someTexts .group j).mapM fun key => return ⟨key, ← fieldKey key⟩

/-- A new key, which neither a field nor an earlier rule may have. -/
def applyKey (taken : List String) (key : String) : Check Unit := do
  if key = "" then throw .emptyApplyKey
  if delimiter ∈ key.toList then throw (.delimiterInApplyKey key)
  if key ∈ taken then throw (.repeatedApplyKey key)

/-- One computed value, given the keys that are taken. -/
def applyRule (taken : List String) (rule : Json) : Check ApplyRule := do
  let (key, body) ← member .applyRule rule
  applyKey taken key
  let (word, target) ← member .applyBody body
  let some aggregate := Aggregate.ofWord? word | throw (.unknownAggregate word)
  let .string target := target | throw .targetNotText
  let field ← fieldKey target
  if aggregate.needsNumber && !field.isNumeric then throw (.aggregateOfText aggregate target)
  return ⟨key, aggregate, field⟩

/-- The computed values one after the other, each taking its key. -/
def applyRules (taken : List String) : List Json → Check (List ApplyRule)
  | [] => pure []
  | j :: items => do
    let rule ← applyRule taken j
    return rule :: (← applyRules (rule.key :: taken) items)

/-- Grouping and computed values. -/
def transformations (j : Json) : Check Transform := do
  let entries ← members .transformations j
  let some group := Json.get? "GROUP" entries | throw .transformationsMembers
  let some apply := Json.get? "APPLY" entries | throw .transformationsMembers
  if entries.length ≠ 2 then throw .transformationsMembers
  let group ← groupKeys group
  let .array rules := apply | throw (.notArray .apply)
  return ⟨group, ← applyRules (group.map (·.key)) rules⟩

/-- A column of grouped rows: a key they are grouped by, or a computed value. -/
def groupedColumn (transform : Transform) (key : String) : Check Column :=
  match transform.group.find? (·.key == key) with
  | some g => pure (.field g.key g.field)
  | none =>
    if transform.apply.any (·.key == key) then pure (.applied key) else throw (.unknownColumn key)

/-- A column of the answer. -/
def column (transform : Option Transform) (key : String) : Check Column :=
  match transform with
  | some t => groupedColumn t key
  | none => return .field key (← fieldKey key)

/-- A sort key, which must be a column. -/
def orderKey (columns : List Column) (key : String) : Check String :=
  if columns.any (·.key == key) then pure key else throw (.orderNotColumn key)

/-- The direction of sorting. -/
def direction : Json → Check Direction
  | .string "UP" => pure .up
  | .string "DOWN" => pure .down
  | _ => throw .orderDirection

/-- The order of the answer: one key upwards, or a direction and keys. -/
def sortOrder (columns : List Column) : Json → Check SortOrder
  | .string key => return ⟨.up, [← orderKey columns key]⟩
  | .object members => do
    let dir := if (Json.get? "dir" members).isSome then "dir" else "direction"
    let some way := Json.get? dir members | throw .orderMembers
    let some keys := Json.get? "keys" members | throw .orderMembers
    if members.length ≠ 2 then throw .orderMembers
    let direction ← direction way
    let keys ← someTexts .orderKeys keys
    return ⟨direction, ← keys.mapM (orderKey columns)⟩
  | _ => throw .orderShape

/-- Columns and order. -/
def options (transform : Option Transform) (j : Json) : Check Options := do
  let entries ← members .options j
  if let some (key, _) := entries.find? (fun (key, _) => key != "COLUMNS" && key != "ORDER") then
    throw (.unexpectedOption key)
  let some columns := Json.get? "COLUMNS" entries | throw (.missing .columns)
  let columns ← (← someTexts .columns columns).mapM (column transform)
  let order ← (Json.get? "ORDER" entries).mapM (sortOrder columns)
  return ⟨columns, order⟩

/-- The whole query. -/
def query (j : Json) : Check Query := do
  let entries ← members .query j
  let expected := ["WHERE", "OPTIONS", "TRANSFORMATIONS"]
  if let some (key, _) := entries.find? (fun (key, _) => !expected.contains key) then
    throw (.unexpectedMember key)
  let some where_ := Json.get? "WHERE" entries | throw (.missing .condition)
  let some options_ := Json.get? "OPTIONS" entries | throw (.missing .options)
  let filter ← condition where_
  let transform ← (Json.get? "TRANSFORMATIONS" entries).mapM transformations
  let options ← options transform options_
  let some subject ← get | throw .noDataset
  return ⟨subject.dataset, subject.kind, filter, transform, options⟩

end Check

namespace Query

/-- The query that a value writes, or the first fault in it. -/
def ofJson (j : Json) : Except QueryFault Query :=
  (Check.query j).run' none

end Query

end CampusQuery
