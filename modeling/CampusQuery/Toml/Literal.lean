import CampusQuery.Double.Rounding
/-!
The words of TOML that are neither strings nor keys: numbers, dates and times.
-/

namespace CampusQuery.Toml

/-- The value of a digit in bases up to sixteen. -/
def digitValue? (base : Nat) (c : Char) : Option Nat :=
  let value :=
    if '0' ≤ c ∧ c ≤ '9' then some (c.toNat - '0'.toNat)
    else if 'a' ≤ c ∧ c ≤ 'f' then some (c.toNat - 'a'.toNat + 10)
    else if 'A' ≤ c ∧ c ≤ 'F' then some (c.toNat - 'A'.toNat + 10)
    else none
  value.filter (· < base)

/-- The values of digits, between which single underscores may stand. -/
def grouped? (base : Nat) : List Char → Option (List Nat)
  | [] => none
  | [c] => (digitValue? base c).map ([·])
  | c :: '_' :: rest => do some ((← digitValue? base c) :: (← grouped? base rest))
  | c :: rest => do some ((← digitValue? base c) :: (← grouped? base rest))

/-- The number that digits write. -/
def valueOf (base : Nat) (digits : List Nat) : Nat :=
  digits.foldl (fun n d => n * base + d) 0

/-- Decimal digits without a needless zero in front. -/
def decimal? (l : List Char) : Option (List Nat) := do
  let digits ← grouped? 10 l
  if digits.head? = some 0 ∧ digits.length ≠ 1 then none
  some digits

/-- A sign, if there is one, and the rest. -/
def signOf : List Char → Bool × List Char
  | '+' :: rest => (false, rest)
  | '-' :: rest => (true, rest)
  | rest => (false, rest)

/-- A whole number of sixty-four bits. -/
def integer? (l : List Char) : Option Int := do
  let n : Int ←
    match l with
    | '0' :: 'x' :: rest => (grouped? 16 rest).map fun d => (valueOf 16 d : Int)
    | '0' :: 'o' :: rest => (grouped? 8 rest).map fun d => (valueOf 8 d : Int)
    | '0' :: 'b' :: rest => (grouped? 2 rest).map fun d => (valueOf 2 d : Int)
    | _ =>
      let (negative, rest) := signOf l
      (decimal? rest).map fun d => if negative then -(valueOf 10 d : Int) else valueOf 10 d
  if -0x8000000000000000 ≤ n ∧ n < 0x8000000000000000 then some n else none

/-- The parts before and behind the first character that passes a test. -/
def splitAt? (p : Char → Bool) (l : List Char) : Option (List Char × List Char) :=
  let (front, back) := l.span (!p ·)
  match back with
  | [] => none
  | _ :: back => some (front, back)

/-- The text is a number with places or an exponent, or one of the words for no number. A number
too large for a double is refused; below the range there is no such limit. -/
def isFloat (l : List Char) : Bool :=
  let (negative, body) := signOf l
  if body = ['i', 'n', 'f'] ∨ body = ['n', 'a', 'n'] then true
  else
    let (mantissa, exponent) := ((splitAt? (fun c => c = 'e' ∨ c = 'E') body).map
      fun (m, e) => (m, some e)).getD (body, none)
    let (whole, places) := ((splitAt? (· = '.') mantissa).map
      fun (w, p) => (w, some p)).getD (mantissa, none)
    let exponentValue : Option Int :=
      match exponent with
      | none => some 0
      | some e =>
        let (negative, digits) := signOf e
        (grouped? 10 digits).map fun d => if negative then -(valueOf 10 d : Int) else valueOf 10 d
    let placeDigits := (places.map (grouped? 10)).getD (some [])
    match decimal? whole, placeDigits, exponentValue with
    | some whole, some placeDigits, some e =>
      let mantissa := valueOf 10 (whole ++ placeDigits)
      let size := Double.ofDecimal false mantissa (e - placeDigits.length)
      (places.isSome || exponent.isSome) && (negative || size.isFinite)
    | _, _, _ => false

/-- Exactly `count` decimal digits at the front, and the rest. -/
def fixed? (count : Nat) (l : List Char) : Option (Nat × List Char) := do
  let digits ← (l.take count).mapM (digitValue? 10)
  if digits.length = count then some (valueOf 10 digits, l.drop count) else none

/-- A character at the front, and the rest. -/
def after? (c : Char) : List Char → Option (List Char)
  | [] => none
  | c' :: rest => if c' = c then some rest else none

/-- The days of a month. -/
def daysIn (year month : Nat) : Nat :=
  if month = 2 then
    if year % 4 = 0 ∧ (year % 100 ≠ 0 ∨ year % 400 = 0) then 29 else 28
  else if month = 4 ∨ month = 6 ∨ month = 9 ∨ month = 11 then 30
  else 31

/-- What follows a date. -/
def date? (l : List Char) : Option (List Char) := do
  let (year, l) ← fixed? 4 l
  let (month, l) ← fixed? 2 (← after? '-' l)
  let (day, l) ← fixed? 2 (← after? '-' l)
  if 1 ≤ month ∧ month ≤ 12 ∧ 1 ≤ day ∧ day ≤ daysIn year month then some l else none

/-- What follows a time of day. -/
def time? (l : List Char) : Option (List Char) := do
  let (hour, l) ← fixed? 2 l
  let (minute, l) ← fixed? 2 (← after? ':' l)
  let (second, l) ← fixed? 2 (← after? ':' l)
  if 23 < hour ∨ 59 < minute ∨ 60 < second then none
  match l with
  | '.' :: l =>
    let (digits, l) := l.span fun c => (digitValue? 10 c).isSome
    if digits.isEmpty then none else some l
  | _ => some l

/-- The text is nothing or a distance from universal time. -/
def isOffset (l : List Char) : Bool :=
  match l with
  | [] | ['Z'] | ['z'] => true
  | sign :: l =>
    (sign = '+' || sign = '-') && ((do
      let (hour, l) ← fixed? 2 l
      let (minute, l) ← fixed? 2 (← after? ':' l)
      some (hour ≤ 23 && minute ≤ 59 && l.isEmpty)).getD false)

/-- The text is a date. -/
def isDate (l : List Char) : Bool :=
  date? l = some []

/-- The text is a time of day, with or without a distance from universal time. -/
def isTimeWithOffset (l : List Char) : Bool :=
  ((time? l).map isOffset).getD false

/-- The text is a date, a time, or both. -/
def isDateTime (l : List Char) : Bool :=
  time? l = some [] ||
    match date? l with
    | some [] => true
    | some ('T' :: l) | some ('t' :: l) => isTimeWithOffset l
    | _ => false

example : ["1_000", "0x1F", "+4", "-0", "01", "1__0", "_1", "0b102"].map (integer? ·.toList) =
    [some 1000, some 31, some 4, some 0, none, none, none, none] := by decide

example : ["1.5", "1e3", "-inf", "1.", ".5", "5", "1e400", "-1e400"].map (isFloat ·.toList) =
    [true, true, true, false, false, false, false, true] := by decide +kernel

example : ["1979-05-27", "1979-02-29", "07:32:00", "1979-05-27T07:32:00.5-07:00"].map
    (isDateTime ·.toList) = [true, false, true, true] := by decide

end CampusQuery.Toml
