import CampusQuery.Dataset.Cell
/-!
Records and their form in JSON.

A record is written as an object with a member for each field. It is read from such an object with
no other member, or from an array of exactly the values in their order.
-/

namespace CampusQuery

/-- One offering of a course. -/
structure Section where
  dept : String
  id : String
  title : String
  instructor : String
  uuid : String
  year : Double
  avg : Double
  pass : Double
  fail : Double
  audit : Double
deriving DecidableEq, Inhabited

/-- One room of the campus. -/
structure Room where
  fullname : String
  shortname : String
  number : String
  name : String
  address : String
  type : String
  furniture : String
  href : String
  lat : Double
  lon : Double
  seats : Double
deriving DecidableEq, Inhabited

inductive Record
  | ofSection (s : Section)
  | ofRoom (r : Room)
deriving DecidableEq, Inhabited

namespace Record

def kind : Record → Kind
  | ofSection _ => .sections
  | ofRoom _ => .rooms

/-- The text that tells a record from the others of its dataset. -/
def naturalId : Record → String
  | ofSection s => s.uuid
  | ofRoom r => r.href

/-- The number in a field, if the record has the field and it holds numbers. -/
def number? : Record → Field → Option Double
  | ofSection s, .year => some s.year
  | ofSection s, .avg => some s.avg
  | ofSection s, .pass => some s.pass
  | ofSection s, .fail => some s.fail
  | ofSection s, .audit => some s.audit
  | ofRoom r, .lat => some r.lat
  | ofRoom r, .lon => some r.lon
  | ofRoom r, .seats => some r.seats
  | _, _ => none

/-- The text in a field, if the record has the field and it holds text. -/
def text? : Record → Field → Option String
  | ofSection s, .dept => some s.dept
  | ofSection s, .id => some s.id
  | ofSection s, .title => some s.title
  | ofSection s, .instructor => some s.instructor
  | ofSection s, .uuid => some s.uuid
  | ofRoom r, .fullname => some r.fullname
  | ofRoom r, .shortname => some r.shortname
  | ofRoom r, .number => some r.number
  | ofRoom r, .name => some r.name
  | ofRoom r, .address => some r.address
  | ofRoom r, .type => some r.type
  | ofRoom r, .furniture => some r.furniture
  | ofRoom r, .href => some r.href
  | _, _ => none

/-- The content of a field that the record has. -/
def cell? (r : Record) (f : Field) : Option Cell :=
  if f.isNumeric then (r.number? f).map .number else (r.text? f).map .text

/-- A record as an object. -/
def toJson (r : Record) : Json :=
  .object <| r.kind.fields.filterMap fun f => (r.cell? f).map fun
    | .number x => (f.key, .ofDouble x)
    | .text s => (f.key, .string s)

/-- The section of values in the order of the fields. -/
def sectionOf? : List Json → Option Record
  | [.string dept, .string id, .string title, .string instructor, .string uuid, .number year,
      .number avg, .number pass, .number fail, .number audit] =>
    some (.ofSection ⟨dept, id, title, instructor, uuid, year.toDouble, avg.toDouble,
      pass.toDouble, fail.toDouble, audit.toDouble⟩)
  | _ => none

/-- The room of values in the order of the fields. -/
def roomOf? : List Json → Option Record
  | [.string fullname, .string shortname, .string number, .string name, .string address,
      .string type, .string furniture, .string href, .number lat, .number lon, .number seats] =>
    some (.ofRoom ⟨fullname, shortname, number, name, address, type, furniture, href, lat.toDouble,
      lon.toDouble, seats.toDouble⟩)
  | _ => none

/-- The values of a record of a kind in the order of its fields: the items of an array, or the
members of an object that has each field once and nothing else. -/
def values? (kind : Kind) : Json → Option (List Json)
  | .array items => some items
  | .object members =>
    if members.length = kind.fields.length then
      kind.fields.mapM fun f => Json.get? f.key members
    else none
  | _ => none

/-- The record that a value writes, a section or else a room. -/
def ofJson? (j : Json) : Option Record :=
  ((values? .sections j).bind sectionOf?).or ((values? .rooms j).bind roomOf?)

end Record

end CampusQuery
