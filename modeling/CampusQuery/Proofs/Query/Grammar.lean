import CampusQuery.Query.Validation
import Mathlib.Data.List.Forall2
/-!
The grammar of queries.

`Query.Written q j` says that the value `j` is a way to write the query `q`. The typed trees lead:
for each of them the grammar lists the values that write it. One subject is fixed for the whole
query, and every key of a field has to be a key of that subject.
-/

namespace CampusQuery

/-- `key` is the name of the dataset, an underscore, and the name of a field of its kind. -/
structure Subject.Names (subject : Subject) (key : String) (field : Field) : Prop where
  key_eq : key = subject.dataset ++ "_" ++ field.key
  kind_eq : field.kind = subject.kind
  not_blank : Text.allBlank subject.dataset = false
  no_delimiter : delimiter ∉ subject.dataset.toList

/-- The text has no asterisk. -/
def Pattern.Plain (text : String) : Prop :=
  '*' ∉ text.toList

/-- Asterisks stand for the open ends of a pattern; a single one opens both ends of nothing. -/
def Pattern.Written : Pattern → String → Prop
  | exactly text, s => Plain text ∧ s = text
  | startsWith text, s => Plain text ∧ text ≠ "" ∧ s = text ++ "*"
  | endsWith text, s => Plain text ∧ text ≠ "" ∧ s = "*" ++ text
  | contains text, s => Plain text ∧ (s = "*" ++ text ++ "*" ∨ text = "" ∧ s = "*")

namespace Filter

mutual
/-- The ways to write a condition that is a node: an object whose one member says what it is. -/
def Written (subject : Subject) : Filter → Json → Prop
  | .all, _ => False
  | .and parts, j =>
    ∃ items, j = .object [("AND", .array items)] ∧ items ≠ [] ∧ WrittenEach subject parts items
  | .or parts, j =>
    ∃ items, j = .object [("OR", .array items)] ∧ items ≠ [] ∧ WrittenEach subject parts items
  | .not part, j => ∃ body, j = .object [("NOT", body)] ∧ Written subject part body
  | .compare op field value, j =>
    ∃ key n, j = .object [(op.word, .object [(key, .number n)])] ∧ subject.Names key field ∧
      field.isNumeric = true ∧ value = n.toDouble
  | .is field pattern, j =>
    ∃ key s, j = .object [("IS", .object [(key, .string s)])] ∧ subject.Names key field ∧
      field.isNumeric = false ∧ pattern.Written s

/-- The values write the conditions one by one. -/
def WrittenEach (subject : Subject) : List Filter → List Json → Prop
  | [], [] => True
  | f :: parts, j :: items => Written subject f j ∧ WrittenEach subject parts items
  | _, _ => False
end

/-- The ways to write the condition of a query: nothing, or a node. -/
def WrittenWhole (subject : Subject) (f : Filter) (j : Json) : Prop :=
  j = .object [] ∧ f = .all ∨ f.Written subject j

end Filter

/-- The word of a query. -/
def Aggregate.word : Aggregate → String
  | max => "MAX"
  | min => "MIN"
  | avg => "AVG"
  | sum => "SUM"
  | count => "COUNT"

/-- A computed value is an object of its key and an object of a word and the key of a field. -/
structure ApplyRule.Written (subject : Subject) (rule : ApplyRule) (j : Json) : Prop where
  key_ne_empty : rule.key ≠ ""
  no_delimiter : delimiter ∉ rule.key.toList
  numeric : rule.aggregate ≠ .count → rule.field.isNumeric = true
  body : ∃ target, subject.Names target rule.field ∧
    j = .object [(rule.key, .object [(rule.aggregate.word, .string target)])]

/-- Grouping is an object of exactly the keys to group by, at least one, and the computed values,
whose keys differ. -/
structure Transform.Written (subject : Subject) (t : Transform) (members : List (String × Json)) :
    Prop where
  only : members.length = 2
  group : Json.get? "GROUP" members = some (.array (t.group.map fun g => .string g.key))
  group_ne_nil : t.group ≠ []
  names : ∀ g ∈ t.group, subject.Names g.key g.field
  apply : ∃ rules, Json.get? "APPLY" members = some (.array rules) ∧
    List.Forall₂ (ApplyRule.Written subject) t.apply rules
  keys_nodup : (t.apply.map ApplyRule.key).Nodup

/-- The columns there are: keys of fields, or with grouping the keys that it has. -/
def Column.Available (subject : Subject) : Option Transform → Column → Prop
  | none, .field key f => subject.Names key f
  | none, .applied _ => False
  | some t, .field key f => GroupKey.mk key f ∈ t.group
  | some t, .applied key => ∃ rule ∈ t.apply, rule.key = key

/-- The word of a query. -/
def Direction.word : Direction → String
  | up => "UP"
  | down => "DOWN"

/-- An order is one of the columns, or an object of exactly a direction and some of the columns. -/
inductive SortOrder.Written (columns : List String) : SortOrder → Json → Prop
  | key (key : String) (hkey : key ∈ columns) : Written columns ⟨.up, [key]⟩ (.string key)
  | keys (direction : Direction) (keys : List String) (members : List (String × Json))
      (only : members.length = 2)
      (direction_eq : ∃ name ∈ ["dir", "direction"],
        Json.get? name members = some (.string direction.word))
      (keys_eq : Json.get? "keys" members = some (.array (keys.map Json.string)))
      (keys_ne_nil : keys ≠ []) (keys_sub : ∀ key ∈ keys, key ∈ columns) :
      Written columns ⟨direction, keys⟩ (.object members)

/-- What is asked of the rows is an object of some columns and possibly an order. -/
structure Options.Written (subject : Subject) (transform : Option Transform) (options : Options)
    (members : List (String × Json)) : Prop where
  only : ∀ m ∈ members, m.1 = "COLUMNS" ∨ m.1 = "ORDER"
  columns : Json.get? "COLUMNS" members =
    some (.array (options.columns.map fun c => .string c.key))
  columns_ne_nil : options.columns ≠ []
  available : ∀ c ∈ options.columns, c.Available subject transform
  order : Option.Rel (SortOrder.Written (options.columns.map Column.key)) options.order
    (Json.get? "ORDER" members)

/-- A query is an object of a condition, what is asked of the rows, and possibly grouping. -/
structure Query.Written (q : Query) (j : Json) : Prop where
  members : ∃ members, j = .object members ∧
    (∀ m ∈ members, m.1 = "WHERE" ∨ m.1 = "OPTIONS" ∨ m.1 = "TRANSFORMATIONS") ∧
    (∃ condition, Json.get? "WHERE" members = some condition ∧
      q.filter.WrittenWhole ⟨q.dataset, q.kind⟩ condition) ∧
    Option.Rel (fun t j => ∃ parts, j = .object parts ∧
      Transform.Written ⟨q.dataset, q.kind⟩ t parts)
      q.transform (Json.get? "TRANSFORMATIONS" members) ∧
    ∃ parts, Json.get? "OPTIONS" members = some (.object parts) ∧
      q.options.Written ⟨q.dataset, q.kind⟩ q.transform parts

end CampusQuery
