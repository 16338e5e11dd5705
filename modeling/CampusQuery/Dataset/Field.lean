/-!
The two kinds of datasets and the fields of their records.

The kinds share no field, so a field by itself says which kind of dataset it belongs to.
-/

namespace CampusQuery

/-- What the records of a dataset are: offerings of courses, or rooms. -/
inductive Kind
  | sections
  | rooms
deriving DecidableEq, Hashable, Repr, Inhabited

/-- A field of a record, as queries address it. -/
inductive Field
  | dept
  | id
  | title
  | instructor
  | uuid
  | year
  | avg
  | pass
  | fail
  | audit
  | fullname
  | shortname
  | number
  | name
  | address
  | type
  | furniture
  | href
  | lat
  | lon
  | seats
deriving DecidableEq, Hashable, Repr

namespace Kind

def name : Kind → String
  | sections => "sections"
  | rooms => "rooms"

/-- The kind of a name. -/
def ofName? (s : String) : Option Kind :=
  [sections, rooms].find? (·.name == s)

/-- The fields in the order in which records list them. -/
def fields : Kind → List Field
  | sections => [.dept, .id, .title, .instructor, .uuid, .year, .avg, .pass, .fail, .audit]
  | rooms =>
    [.fullname, .shortname, .number, .name, .address, .type, .furniture, .href, .lat, .lon, .seats]

/-- The field that tells the records of one dataset apart. -/
def naturalId : Kind → Field
  | sections => .uuid
  | rooms => .href

end Kind

namespace Field

/-- All fields, those of sections first. -/
def all : List Field :=
  Kind.sections.fields ++ Kind.rooms.fields

/-- The name in queries and files. -/
def key : Field → String
  | dept => "dept"
  | id => "id"
  | title => "title"
  | instructor => "instructor"
  | uuid => "uuid"
  | year => "year"
  | avg => "avg"
  | pass => "pass"
  | fail => "fail"
  | audit => "audit"
  | fullname => "fullname"
  | shortname => "shortname"
  | number => "number"
  | name => "name"
  | address => "address"
  | type => "type"
  | furniture => "furniture"
  | href => "href"
  | lat => "lat"
  | lon => "lon"
  | seats => "seats"

/-- The field of a name. -/
def ofKey? (s : String) : Option Field :=
  all.find? (·.key == s)

/-- The kind of dataset that has the field. -/
def kind (f : Field) : Kind :=
  if f ∈ Kind.sections.fields then .sections else .rooms

/-- The field holds numbers; all others hold text. -/
def isNumeric : Field → Bool
  | year | avg | pass | fail | audit | lat | lon | seats => true
  | _ => false

theorem ofKey?_key (f : Field) : ofKey? f.key = some f := by
  cases f <;> rfl

theorem key_inj {f f' : Field} (h : f.key = f'.key) : f = f' := by
  have heq := ofKey?_key f
  rw [h, ofKey?_key] at heq
  exact (Option.some.inj heq).symm

theorem mem_fields_iff (f : Field) (k : Kind) : f ∈ k.fields ↔ f.kind = k := by
  cases f <;> cases k <;> decide

end Field

end CampusQuery
