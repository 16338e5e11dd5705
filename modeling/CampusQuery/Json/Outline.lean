import CampusQuery.Json.Token
/-!
From tokens to values.

The grammar of JSON is an automaton on tokens with the list of open arrays and objects as its
stack. Its result is an outline: the shape of the text with scalars as the tokens they are. Reading
is strict or lenient about scalars without a value; in either case the answer is settled by the
first token that cannot stand where it does, and a text that only stops too soon has ended early.
-/

namespace CampusQuery.Json

/-- The shape of a text. -/
inductive Outline
  | scalar (token : Token)
  | array (items : List Outline)
  | object (members : List (Option String × Outline))
deriving Inhabited

/-- What a reader insists on. -/
structure Rules where
  /-- Numbers and strings must have a value. -/
  strict : Bool
  /-- The most arrays and objects that may be open at once. -/
  depth : Option Nat

namespace Rules

/-- The rules for values that are wanted: at most a hundred and twenty-seven levels. -/
def values : Rules :=
  ⟨true, some 127⟩

/-- The rules for values that are passed over. -/
def shape : Rules :=
  ⟨false, none⟩

/-- One more array or object may be opened. -/
def admits (rules : Rules) (depth : Nat) : Bool :=
  rules.depth.all (depth < ·)

end Rules

/-- An array or object that is open, with what it holds so far, the latest first. -/
inductive Frame
  | items (items : List Outline)
  | member (members : List (Option String × Outline)) (key : Option String)

/-- What may come next, inside which open arrays and objects. -/
inductive Reading
  | value (frames : List Frame)
  | firstItem (frames : List Frame)
  | afterItem (items : List Outline) (frames : List Frame)
  | firstKey (frames : List Frame)
  | nextKey (members : List (Option String × Outline)) (frames : List Frame)
  | colon (members : List (Option String × Outline)) (key : Option String) (frames : List Frame)
  | afterMember (members : List (Option String × Outline)) (frames : List Frame)
  | finished (outline : Outline)

namespace Reading

def start : Reading :=
  .value []

/-- A complete value goes to the innermost open array or object. -/
def deliver (value : Outline) : List Frame → Reading
  | [] => .finished value
  | .items items :: frames => .afterItem (value :: items) frames
  | .member members key :: frames => .afterMember ((key, value) :: members) frames

/-- A token where a value must start. -/
def pushValue (rules : Rules) (frames : List Frame) : Token → Except ReadError Reading
  | .openArray => if rules.admits frames.length then .ok (.firstItem frames) else .error .malformed
  | .openObject => if rules.admits frames.length then .ok (.firstKey frames) else .error .malformed
  | .null => .ok (deliver (.scalar .null) frames)
  | .bool b => .ok (deliver (.scalar (.bool b)) frames)
  | .number n =>
    if rules.strict && n.isNone then .error .malformed
    else .ok (deliver (.scalar (.number n)) frames)
  | .string s =>
    if rules.strict && s.isNone then .error .malformed
    else .ok (deliver (.scalar (.string s)) frames)
  | .broken _ error => .error error
  | _ => .error .malformed

/-- A token where the key of a member must stand. -/
def pushKey (rules : Rules) (members : List (Option String × Outline)) (frames : List Frame) :
    Token → Except ReadError Reading
  | .string s =>
    if rules.strict && s.isNone then .error .malformed else .ok (.colon members s frames)
  | .broken true error => .error error
  | _ => .error .malformed

/-- The next token. -/
def push (rules : Rules) : Reading → Token → Except ReadError Reading
  | .value frames, t => pushValue rules frames t
  | .firstItem frames, .closeArray => .ok (deliver (.array []) frames)
  | .firstItem frames, t => pushValue rules (.items [] :: frames) t
  | .afterItem items frames, .comma => .ok (.value (.items items :: frames))
  | .afterItem items frames, .closeArray => .ok (deliver (.array items.reverse) frames)
  | .firstKey frames, .closeObject => .ok (deliver (.object []) frames)
  | .firstKey frames, t => pushKey rules [] frames t
  | .nextKey members frames, t => pushKey rules members frames t
  | .colon members key frames, .colon => .ok (.value (.member members key :: frames))
  | .afterMember members frames, .comma => .ok (.nextKey members frames)
  | .afterMember members frames, .closeObject => .ok (deliver (.object members.reverse) frames)
  | _, _ => .error .malformed

/-- The value of a text that ends here. -/
def finish : Reading → Except ReadError Outline
  | .finished outline => .ok outline
  | _ => .error .endedEarly

end Reading

namespace Outline

/-- The outline that tokens spell. -/
def ofTokens (rules : Rules) (tokens : List Token) : Except ReadError Outline := do
  let reading ← tokens.foldlM (Reading.push rules) Reading.start
  reading.finish

mutual
/-- The value of an outline whose scalars all have one. -/
def toJson? : Outline → Option Json
  | .scalar .null => some .null
  | .scalar (.bool b) => some (.bool b)
  | .scalar (.number n) => n.map .number
  | .scalar (.string s) => s.map .string
  | .scalar _ => none
  | .array items => (itemsToJson? items).map .array
  | .object members => (membersToJson? members).map .object

@[inherit_doc toJson?]
def itemsToJson? : List Outline → Option (List Json)
  | [] => some []
  | o :: items =>
    match o.toJson?, itemsToJson? items with
    | some j, some items => some (j :: items)
    | _, _ => none

@[inherit_doc toJson?]
def membersToJson? : List (Option String × Outline) → Option (List (String × Json))
  | [] => some []
  | (key, o) :: members =>
    match key, o.toJson?, membersToJson? members with
    | some key, some j, some members => some ((key, j) :: members)
    | _, _, _ => none
end

end Outline

/-- The value that a text writes, under `rules`. -/
def readUnder (rules : Rules) (text : Text) : Except ReadError Json := do
  let outline ← Outline.ofTokens rules (scan text)
  match outline.toJson? with
  | some j => .ok j.settled
  | none => .error .malformed

/-- The value that a text writes. -/
def read (text : String) : Except ReadError Json :=
  readUnder .values (.ofString text)

end CampusQuery.Json
