import CampusQuery.Assignment
import CampusQuery.Double.Text
/-!
JSON values.

Members keep the order and the repetitions of the text they came from; `settled` is the reading in
which a repeated member counts once, with its last value at its first place.
-/

namespace CampusQuery

/-- A JSON number: a literal without point or exponent stays a whole number where it fits. -/
inductive Number
  | integer (n : Int)
  | double (x : Double)
deriving DecidableEq, Inhabited

inductive Json
  | null
  | bool (b : Bool)
  | number (n : Number)
  | string (s : String)
  | array (items : List Json)
  | object (members : List (String × Json))
deriving Inhabited

namespace Json

mutual
/-- Equality of values: members in the same order, and numbers with the same bits. -/
def same : Json → Json → Bool
  | .null, .null => true
  | .bool b, .bool c => b == c
  | .number m, .number n => m == n
  | .string s, .string t => s == t
  | .array items, .array others => sameItems items others
  | .object members, .object others => sameMembers members others
  | _, _ => false

@[inherit_doc same]
def sameItems : List Json → List Json → Bool
  | [], [] => true
  | j :: items, k :: others => same j k && sameItems items others
  | _, _ => false

@[inherit_doc same]
def sameMembers : List (String × Json) → List (String × Json) → Bool
  | [], [] => true
  | (key, j) :: members, (other, k) :: others =>
    key == other && same j k && sameMembers members others
  | _, _ => false
end

mutual
theorem same_iff (j k : Json) : same j k = true ↔ j = k := by
  cases j <;> cases k <;> simp [same, sameItems_iff, sameMembers_iff]

theorem sameItems_iff (items others : List Json) :
    sameItems items others = true ↔ items = others := by
  cases items with
  | nil => cases others <;> simp [sameItems]
  | cons j items => cases others <;> simp [sameItems, same_iff j, sameItems_iff items]

theorem sameMembers_iff (members others : List (String × Json)) :
    sameMembers members others = true ↔ members = others := by
  cases members with
  | nil => cases others <;> simp [sameMembers]
  | cons entry members =>
    obtain ⟨key, j⟩ := entry
    cases others with
    | nil => simp [sameMembers]
    | cons other others =>
      simp [sameMembers, same_iff j other.2, sameMembers_iff members others, Prod.ext_iff,
        and_assoc]
end

instance : DecidableEq Json :=
  fun j k => decidable_of_iff _ (same_iff j k)

end Json

/-- The nearest double. -/
def Number.toDouble : Number → Double
  | .integer n => .ofInt n
  | .double x => x

namespace Json

/-- A whole number. -/
def int (n : Int) : Json :=
  .number (.integer n)

/-- A double; JSON has no text for a number that is not finite. -/
def ofDouble (x : Double) : Json :=
  if x.isFinite then .number (.double x) else .null

/-- The first member of the name `key`. -/
def get? (key : String) : List (String × Json) → Option Json :=
  List.lookup key

mutual
/-- Every object with its repeated members settled. -/
def settled : Json → Json
  | .array items => .array (settledItems items)
  | .object members => .object (assignAll (settledMembers members))
  | j => j

@[inherit_doc settled]
def settledItems : List Json → List Json
  | [] => []
  | j :: items => j.settled :: settledItems items

@[inherit_doc settled]
def settledMembers : List (String × Json) → List (String × Json)
  | [] => []
  | (key, j) :: members => (key, j.settled) :: settledMembers members
end

example : settled (.object [("a", .int 1), ("b", .int 2), ("a", .int 3)]) =
    .object [("a", .int 3), ("b", .int 2)] := by
  simp [settled, settledMembers, assignAll, assign, int]

end Json

end CampusQuery
