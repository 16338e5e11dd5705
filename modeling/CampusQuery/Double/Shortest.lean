import CampusQuery.Double.Rounding
/-!
The shortest decimal digits of a double.

For one digit, two, and so on up to seventeen, the two numbers of that many digits around the value
are tried, and the first count with one that reads back as the double wins. So every answer reads
back, and of two answers of one length the nearer is taken.
-/

namespace CampusQuery

/-- The positive decimal number `digits · 10 ^ exponent`. -/
structure Digits where
  digits : Nat
  exponent : Int
deriving DecidableEq, Repr, Inhabited

/-- Which of two numbers that are equally near is taken. -/
inductive Tie
  | toEven
  | up
deriving DecidableEq, Repr

namespace Digits

/-- `digits` without the zeros at its end, which pass into the exponent. -/
def trimmed (fuel : Nat) (d : Digits) : Digits :=
  match fuel with
  | 0 => d
  | fuel + 1 =>
    if d.digits ≠ 0 ∧ d.digits % 10 = 0 then trimmed fuel ⟨d.digits / 10, d.exponent + 1⟩ else d

/-- The double that `d` reads as. -/
def toDouble (negative : Bool) (d : Digits) : Double :=
  .ofDecimal negative d.digits d.exponent

end Digits

namespace Double

/-- The whole part of the decimal logarithm of `num / den`, both positive. -/
def decimalExponent (num den : Nat) : Int :=
  let guess := (binaryExponent num den * 30103).fdiv 100000
  let next := guess + 1
  let reached :=
    if 0 ≤ next then den * Nat.pow 10 next.toNat ≤ num else den ≤ num * Nat.pow 10 (-next).toNat
  if reached then next else guess

/-- Of the two numbers with `count` digits around `x`, the nearest that reads back as `x`. -/
def nearest? (tie : Tie) (x : Double) (count : Nat) : Option Digits :=
  let (num, den) := x.fraction
  let step := decimalExponent num den + 1 - count
  let (num, den) :=
    if 0 ≤ step then (num, den * Nat.pow 10 step.toNat) else (num * Nat.pow 10 (-step).toNat, den)
  let below := Digits.trimmed 20 ⟨num / den, step⟩
  let above := Digits.trimmed 20 ⟨num / den + 1, step⟩
  let readsBack (d : Digits) : Bool := d.toDouble x.negative == x
  match readsBack below, readsBack above with
  | false, false => none
  | true, false => some below
  | false, true => some above
  | true, true =>
    let rest := 2 * (num % den)
    if rest < den ∨ rest = den ∧ tie = .toEven ∧ num / den % 2 = 0 then some below else some above

/-- All digits of the value of `x`. -/
def allDigits (x : Double) : Digits :=
  if 0 ≤ x.exponent then ⟨x.significand <<< x.exponent.toNat, 0⟩
  else ⟨x.significand * Nat.pow 5 (-x.exponent).toNat, x.exponent⟩

/-- The fewest digits that read back as the finite number `x`, which is not zero. -/
def shortest (tie : Tie) (x : Double) : Digits :=
  ((List.range 17).findSome? fun n => x.nearest? tie (n + 1)).getD x.allDigits

example : shortest .toEven (ofDecimal false 1 (-1)) = ⟨1, -1⟩ := by decide +kernel

example : shortest .toEven (ofInt 2015) = ⟨2015, 0⟩ := by decide +kernel

/-- `5e-324` is the nearest of the one-digit numbers that read as the smallest double. -/
example : shortest .toEven ⟨1⟩ = ⟨5, -324⟩ := by decide +kernel

/-- A value halfway between two candidates, `2 ^ 50 + 0.25`. -/
example : shortest .toEven ⟨0x4310000000000001⟩ = ⟨11258999068426242, -1⟩ ∧
    shortest .up ⟨0x4310000000000001⟩ = ⟨11258999068426243, -1⟩ := by decide +kernel

end Double

end CampusQuery
