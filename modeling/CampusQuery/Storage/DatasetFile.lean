import CampusQuery.Dataset
import CampusQuery.Json.Outline
import CampusQuery.Json.Writer
/-!
The files of datasets.

A file is a JSON object of the dataset's name, its kind, the number of its records, and the records.
Two readers share one view of it, the parts of its outermost value: one reads all parts, the other
all but the records, which it passes over.
-/

namespace CampusQuery.Storage

/-- What a dataset's file says. -/
structure DatasetFile where
  id : String
  kind : Kind
  size : Nat
  records : List Record
deriving DecidableEq, Inhabited

namespace DatasetFile

def toJson (f : DatasetFile) : Json :=
  .object [("id", .string f.id), ("kind", .string f.kind.name), ("size", .int f.size),
    ("records", .array (f.records.map Record.toJson))]

/-- The bytes of the file. -/
def encode (f : DatasetFile) : ByteArray :=
  f.toJson.compact.toUTF8

/-- The parts of an outermost value: the members with the given names, each of which must be there
once, or the items of an array of as many. Other members may stand in between. -/
def parts? (names : List String) : Json.Outline → Option (List Json.Outline)
  | .array items => if items.length = names.length then some items else none
  | .object members =>
    if members.all (·.1.isSome) then
      names.mapM fun name =>
        match members.filter (·.1 == some name) with
        | [(_, part)] => some part
        | _ => none
    else none
  | .scalar _ => none

/-- A text. -/
def text? : Json.Outline → Option String
  | .scalar (.string s) => s
  | _ => none

/-- A kind, by its name or as the only member of an object. -/
def kind? : Json.Outline → Option Kind
  | .scalar (.string s) => s.bind Kind.ofName?
  | .object [(key, .scalar .null)] => key.bind Kind.ofName?
  | _ => none

/-- A whole number that is not negative. -/
def size? : Json.Outline → Option Nat
  | .scalar (.number (some (.integer n))) => if 0 ≤ n then some n.toNat else none
  | _ => none

/-- Records. -/
def records? : Json.Outline → Option (List Record)
  | .array items => items.mapM fun item => item.toJson?.bind Record.ofJson?
  | _ => none

/-- The shape of a file. -/
def outline? (bytes : ByteArray) : Option Json.Outline :=
  (Json.Outline.ofTokens .shape (Json.scan (.ofBytes bytes))).toOption

/-- All that a file says. -/
def decode? (bytes : ByteArray) : Option DatasetFile := do
  match ← parts? ["id", "kind", "size", "records"] (← outline? bytes) with
  | [id, kind, size, records] => some ⟨← text? id, ← kind? kind, ← size? size, ← records? records⟩
  | _ => none

/-- What a file says before its records. -/
def header? (bytes : ByteArray) : Option DatasetInfo := do
  match ← parts? ["id", "kind", "size"] (← outline? bytes) with
  | [id, kind, size] => some ⟨← text? id, ← kind? kind, ← size? size⟩
  | _ => none

end DatasetFile

end CampusQuery.Storage
