import CampusQuery.Double
import CampusQuery.Rounding
/-!
The double nearest to a fraction or to a decimal number.

`ofFraction` finds the grid `2 ^ e` on which the quotient has fifty-three binary digits, or the
finest grid there is, and rounds to a whole number of its steps. The steps are the last bits of the
magnitude, so a carry into the next power of two, or past the largest number, needs no case.
-/

namespace CampusQuery.Double

/-- The whole part of the binary logarithm of `num / den`, both positive. -/
def binaryExponent (num den : Nat) : Int :=
  let e : Int := num.log2 - den.log2
  let reached := if 0 ≤ e then den <<< e.toNat ≤ num else den ≤ num <<< (-e).toNat
  if reached then e else e - 1

/-- The exponent of the grid that holds the doubles around `num / den`. -/
def gridExponent (num den : Nat) : Int :=
  Max.max (-1074) (binaryExponent num den - 52)

/-- The double nearest to `num / den`, a half going to the even pattern; what is too large becomes
an infinity. -/
def ofFraction (negative : Bool) (num den : Nat) : Double :=
  if num = 0 then ofMagnitude negative 0
  else
    let e := gridExponent num den
    let steps :=
      if 0 ≤ e then CampusQuery.Rounding.halfEven num (den <<< e.toNat)
      else CampusQuery.Rounding.halfEven (num <<< (-e).toNat) den
    ofMagnitude negative (Min.min infinity ((e + 1074).toNat * 0x10000000000000 + steps))

/-- The double nearest to a whole number. -/
def ofInt (n : Int) : Double :=
  ofFraction (decide (n < 0)) n.natAbs 1

/-- How many decimal digits `n` has; none for `0`. -/
def decimalLength (n : Nat) : Nat :=
  if n = 0 then 0 else (Nat.toDigits 10 n).length

/-- The double nearest to `digits · 10 ^ exponent`. Numbers whose first digit lies far outside the
range are answered without the power of ten. -/
def ofDecimal (negative : Bool) (digits : Nat) (exponent : Int) : Double :=
  let position := decimalLength digits + exponent
  if digits = 0 ∨ position < -330 then ofMagnitude negative 0
  else if 310 < position then ofMagnitude negative infinity
  else if 0 ≤ exponent then ofFraction negative (digits * Nat.pow 10 exponent.toNat) 1
  else ofFraction negative digits (Nat.pow 10 (-exponent).toNat)

/-- `0.1` and `-2.5` read as their usual patterns. -/
example : (ofDecimal false 1 (-1)).bits = 0x3FB999999999999A ∧
    (ofDecimal true 25 (-1)).bits = 0xC004000000000000 := by decide

/-- The smallest number, and what rounds to zero below it. -/
example : (ofDecimal false 5 (-324)).bits = 1 ∧ (ofDecimal false 2 (-324)).bits = 0 := by
  decide +kernel

/-- Halfway between two neighbours the even pattern is taken. -/
example : (ofInt 9007199254740993).bits = (ofInt 9007199254740992).bits ∧
    (ofInt 9007199254740995).bits = (ofInt 9007199254740996).bits := by decide +kernel

end CampusQuery.Double
