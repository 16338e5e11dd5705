/-!
The numbers of the records: 64-bit binary floating point, held as bit patterns.

A pattern is a sign bit above a magnitude of sixty-three bits, and magnitudes grow with the values
they stand for. One signed number, `ordinal`, therefore carries every comparison: it puts all
patterns in their total order once the two zeros are taken as one.
-/

namespace CampusQuery

/-- A 64-bit binary floating-point number: one sign bit, eleven exponent bits, fifty-two fraction
bits. -/
structure Double where
  bits : UInt64
deriving DecidableEq, Hashable, Inhabited

namespace Double

/-- The sign bit is set. -/
def negative (x : Double) : Bool :=
  decide (0x8000000000000000 ≤ x.bits.toNat)

/-- The pattern without its sign bit. -/
def magnitude (x : Double) : Nat :=
  x.bits.toNat % 0x8000000000000000

/-- The magnitude of the infinities; every larger one is a NaN. -/
def infinity : Nat :=
  0x7FF0000000000000

/-- The number of a sign and a magnitude below `2 ^ 63`. -/
def ofMagnitude (negative : Bool) (magnitude : Nat) : Double :=
  ⟨.ofNat ((if negative then 0x8000000000000000 else 0) + magnitude)⟩

def zero : Double :=
  ofMagnitude false 0

def posInfinity : Double :=
  ofMagnitude false infinity

def negInfinity : Double :=
  ofMagnitude true infinity

def isNaN (x : Double) : Bool :=
  decide (infinity < x.magnitude)

def isFinite (x : Double) : Bool :=
  decide (x.magnitude < infinity)

/-- The place of `x` in the total order of all patterns, both zeros being at `0`. -/
def ordinal (x : Double) : Int :=
  if x.negative then -(x.magnitude : Int) else x.magnitude

/-- `x < y` as numbers; a NaN is in no relation. -/
def lt (x y : Double) : Bool :=
  !x.isNaN && !y.isNaN && decide (x.ordinal < y.ordinal)

/-- `x = y` as numbers: the zeros are equal, and a NaN equals nothing. -/
def eq (x y : Double) : Bool :=
  !x.isNaN && !y.isNaN && decide (x.ordinal = y.ordinal)

/-- A finite number is its sign times `significand · 2 ^ exponent`. -/
def significand (x : Double) : Nat :=
  let fraction := x.magnitude % 0x10000000000000
  if x.magnitude < 0x10000000000000 then fraction else 0x10000000000000 + fraction

@[inherit_doc significand]
def exponent (x : Double) : Int :=
  (max 1 (x.magnitude / 0x10000000000000) : Nat) - 1075

/-- Numerator and denominator of a finite number without its sign. -/
def fraction (x : Double) : Nat × Nat :=
  if 0 ≤ x.exponent then (x.significand <<< x.exponent.toNat, 1)
  else (x.significand, 1 <<< (-x.exponent).toNat)

/-- The whole number that `x` is, if it is one. -/
def toInt? (x : Double) : Option Int :=
  let (num, den) := x.fraction
  if x.isFinite && num % den == 0 then
    some (if x.negative then -(num / den : Nat) else (num / den : Nat))
  else none

/-- The larger number, an operand that is a NaN standing aside. -/
def max (x y : Double) : Double :=
  if x.isNaN then y else if y.isNaN then x else if x.lt y then y else x

/-- The smaller number, an operand that is a NaN standing aside. -/
def min (x y : Double) : Double :=
  if x.isNaN then y else if y.isNaN then x else if y.lt x then y else x

/-- The zeros share a place in the order. -/
example : (ofMagnitude true 0).ordinal = zero.ordinal := by decide

example : negInfinity.lt zero = true ∧ zero.lt posInfinity = true := by decide

/-- The pattern of `1.5`. -/
example : (Double.mk 0x3FF8000000000000).significand = 3 <<< 51 ∧
    (Double.mk 0x3FF8000000000000).exponent = -52 := by decide

end Double

end CampusQuery
