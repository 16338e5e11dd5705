import CampusQuery.Double.Shortest
/-!
The two written forms of a double.

`jsonText` is the form of files and answers: always with a point or an exponent, so that it reads
as a floating number again. `plainText` never has an exponent; exact sums start from it.
-/

namespace CampusQuery.Double

/-- The decimal digits of `n`. -/
def digitsOf (n : Nat) : List Char :=
  Nat.toDigits 10 n

/-- `digits · 10 ^ exponent` without an exponent, as whole digits and fraction digits. -/
def positional (d : Digits) : List Char × List Char :=
  let digits := digitsOf d.digits
  if 0 ≤ d.exponent then (digits ++ List.replicate d.exponent.toNat '0', [])
  else
    let places := (-d.exponent).toNat
    if places < digits.length then
      (digits.take (digits.length - places), digits.drop (digits.length - places))
    else (['0'], List.replicate (places - digits.length) '0' ++ digits)

/-- One digit before the point, the rest after it, and a signed exponent. -/
def scientific (d : Digits) : List Char :=
  let digits := digitsOf d.digits
  let exponent := d.exponent + digits.length - 1
  digits.take 1 ++ (if digits.length ≤ 1 then [] else '.' :: digits.drop 1) ++
    ['e', if exponent < 0 then '-' else '+'] ++ digitsOf exponent.natAbs

/-- The sign, the whole digits and the fraction digits with a point where there are any. -/
def joined (negative : Bool) (whole places : List Char) : List Char :=
  (if negative then ['-'] else []) ++ whole ++ if places.isEmpty then [] else '.' :: places

/-- The text of a finite number in JSON: plain from `1e-5` up to `1e16`, with `.0` where it has no
places, and scientific outside. -/
def jsonChars (x : Double) : List Char :=
  if x.magnitude = 0 then joined x.negative ['0'] ['0']
  else
    let d := x.shortest .toEven
    let lead := d.exponent + (digitsOf d.digits).length - 1
    if -5 ≤ lead ∧ lead < 16 then
      let (whole, places) := positional d
      joined x.negative whole (if places.isEmpty then ['0'] else places)
    else (if x.negative then ['-'] else []) ++ scientific d

@[inherit_doc jsonChars]
def jsonText (x : Double) : String :=
  .ofList x.jsonChars

/-- Whole digits and fraction digits of a finite number without its sign. -/
def plainDigits (x : Double) : List Char × List Char :=
  if x.magnitude = 0 then (['0'], []) else positional (x.shortest .up)

/-- The text of any number without an exponent. -/
def plainText (x : Double) : String :=
  if x.isNaN then "NaN"
  else if x.isFinite then .ofList (joined x.negative x.plainDigits.1 x.plainDigits.2)
  else if x.negative then "-inf" else "inf"

example : [ofInt 70, ofDecimal false 1 (-5), ofDecimal true 1 (-7), ofDecimal false 1 16,
    ofDecimal false 15 299, ofMagnitude true 0].map jsonText =
    ["70.0", "0.00001", "-1e-7", "1e+16", "1.5e+300", "-0.0"] := by decide +kernel

example : [ofInt 70, ofDecimal true 705 (-1), ofDecimal false 1 20, ofMagnitude true 0,
    negInfinity].map plainText =
    ["70", "-70.5", "100000000000000000000", "-0", "-inf"] := by decide +kernel

end CampusQuery.Double
