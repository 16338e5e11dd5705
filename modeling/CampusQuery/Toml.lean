import CampusQuery.Assignment
/-!
TOML documents as tables, with the rules for defining tables piece by piece.

A table comes into being by a header, by a dotted key, or on the way to a table below it. Only the
last may be given a header later, dotted keys extend only what dotted keys made, and everything else
is defined once.
-/

namespace CampusQuery.Toml

/-- A value. Of the values that are no tables, texts and whole numbers are of interest; an array of
tables is represented by the last of them, the one that can be extended. -/
inductive Value
  | text (s : String)
  | integer (n : Int)
  | other
  | table (implicit dotted : Bool) (entries : List (String × Value))
  | tables (last : List (String × Value))
deriving Inhabited

/-- A table under construction. -/
structure Table where
  /-- Not yet defined by a header or as a whole. -/
  implicit : Bool
  /-- Made by a dotted key. -/
  dotted : Bool
  entries : List (String × Value)

namespace Table

/-- The outermost table at the start. -/
def root : Table :=
  ⟨false, false, []⟩

def toValue (t : Table) : Value :=
  .table t.implicit t.dotted t.entries

/-- The table with a value under a key. -/
def withEntry (t : Table) (key : String) (value : Value) : Table :=
  { t with entries := assign key value t.entries }

/-- Changes the table at the end of a path, making tables that are missing. A dotted key may not
pass through a table that has been defined. -/
def update (dotted : Bool) (f : Table → Option Table) : List String → Table → Option Table
  | [], t => f t
  | key :: path, t =>
    match t.entries.lookup key with
    | none => do
      let child ← update dotted f path ⟨true, dotted, []⟩
      some (t.withEntry key child.toValue)
    | some (.table implicit isDotted entries) => do
      if dotted && !implicit then none
      let child ← update dotted f path ⟨implicit, isDotted, entries⟩
      some (t.withEntry key child.toValue)
    | some (.tables last) => do
      let child ← update dotted f path ⟨false, false, last⟩
      some (t.withEntry key (.tables child.entries))
    | some _ => none

/-- Adds a value under a dotted key. -/
def insert (path : List String) (key : String) (value : Value) (t : Table) : Option Table :=
  update true (fun t =>
    if t.dotted = path.isEmpty ∨ (t.entries.lookup key).isSome then none
    else some (t.withEntry key value)) path t

/-- Defines the table of a header. -/
def define (path : List String) (key : String) (t : Table) : Option Table :=
  update false (fun t =>
    match t.entries.lookup key with
    | none => some (t.withEntry key (.table false false []))
    | some (.table true false entries) => some (t.withEntry key (.table false false entries))
    | some _ => none) path t

/-- Adds a table to the array of a header. -/
def append (path : List String) (key : String) (t : Table) : Option Table :=
  update false (fun t =>
    match t.entries.lookup key with
    | none | some (.tables _) => some (t.withEntry key (.tables []))
    | some _ => none) path t

end Table

end CampusQuery.Toml
