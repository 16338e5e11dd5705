import CampusQuery.Double.Rounding
/-!
A decimal number by way of a power of ten.

The significand and the power of ten are rounded to doubles first, and their product or quotient is
rounded once more. This is quicker than the double nearest to the number, and may miss it.
-/

namespace CampusQuery.Double

/-- The product of two finite numbers without their signs, rounded. -/
def times (x y : Double) : Double :=
  ofFraction false (x.fraction.1 * y.fraction.1) (x.fraction.2 * y.fraction.2)

/-- The quotient of two finite numbers without their signs, rounded; the second is not zero. -/
def dividedBy (x y : Double) : Double :=
  ofFraction false (x.fraction.1 * y.fraction.2) (x.fraction.2 * y.fraction.1)

/-- The double nearest to `10 ^ n`. -/
def tenPower (n : Nat) : Double :=
  ofFraction false (Nat.pow 10 n) 1

/-- `x` times `10 ^ n`. From the first power that is no double on, only zero stays finite. -/
def raised (x : Double) (n : Nat) : Double :=
  if n ≤ 308 then x.times (tenPower n)
  else if x.magnitude = 0 then zero
  else posInfinity

/-- `x` divided by `10 ^ n`, by `10 ^ 308` first where `10 ^ n` is no double. A whole number of
sixty-four bits that is divided twice so is zero. -/
def lowered (x : Double) (n : Nat) : Double :=
  if n ≤ 308 then x.dividedBy (tenPower n)
  else if n ≤ 616 then (x.dividedBy (tenPower 308)).dividedBy (tenPower (n - 308))
  else zero

/-- The double for `significand · 10 ^ power`. -/
def scaled (negative : Bool) (significand : UInt64) (power : Int) : Double :=
  let x := ofFraction false significand.toNat 1
  let y := if 0 ≤ power then x.raised power.toNat else x.lowered (-power).toNat
  ofMagnitude negative y.magnitude

/-- Where all three are doubles, nothing is lost. -/
example : scaled true 25 (-1) = ofDecimal true 25 (-1) ∧
    scaled false 7 22 = ofDecimal false 7 22 := by decide +kernel

/-- A significand of seventeen digits is rounded before it is divided. -/
example : scaled false 10000000000000001 (-14) = ofInt 100 ∧
    scaled false 10000000000000001 (-14) ≠ ofDecimal false 10000000000000001 (-14) := by
  decide +kernel

example : (scaled false 0xFFFFFFFFFFFFFFFF (-616)).magnitude = 0 ∧
    (scaled false 5 (-324)).magnitude = 1 := by decide +kernel

end CampusQuery.Double
