import CampusQuery.Double.Text
/-!
Exact decimal numbers, in which SUM and AVG are computed.

A decimal is a whole number below `2 ^ 96` in size and a count of at most twenty-eight places. The
operations stay exact as long as the result fits; where it does not, places are given up and the
last one kept is rounded.
-/

namespace CampusQuery

/-- The number `mantissa / 10 ^ scale`. -/
structure Decimal where
  mantissa : Int
  scale : Nat
deriving DecidableEq, Repr, Inhabited

namespace Decimal

/-- Mantissas stay below `2 ^ 96` in size. -/
def bound : Nat :=
  0x1000000000000000000000000

/-- The most places a decimal has. -/
def maxScale : Nat :=
  28

def zero : Decimal :=
  ⟨0, 0⟩

/-- The decimal of a sign and a size. -/
def signed (negative : Bool) (size scale : Nat) : Decimal :=
  ⟨if negative then -(size : Int) else size, scale⟩

/-- Appends places to `size / 10 ^ scale` while they fit. The first that does not rounds the number,
a half going up, and the others are dropped. -/
def withPlaces (size scale : Nat) : List Nat → Nat × Nat
  | [] => (size, scale)
  | digit :: places =>
    if scale < maxScale ∧ size * 10 + digit < bound then
      withPlaces (size * 10 + digit) (scale + 1) places
    else if digit < 5 then (size, scale)
    else if size + 1 < bound then (size + 1, scale)
    else ((size + 5) / 10, scale - 1)

/-- The values of decimal digits. -/
def digitValues (digits : List Char) : List Nat :=
  digits.map fun c => c.toNat - '0'.toNat

/-- The decimal of a number that is too large for its text to be one: its whole part, cut to a
multiple of ten, if that fits. Of all doubles only `2 ^ 96` and its negative have one. -/
def ofLarge? (x : Double) : Option Decimal :=
  let size := x.fraction.1 / x.fraction.2 / 10 * 10
  if size < bound then some (signed x.negative size 0) else none

/-- The decimal that the plain text of `x` writes, so that `0.1` is one tenth. None for a number
that is not finite or too large. -/
def ofDouble? (x : Double) : Option Decimal :=
  if x.isFinite then
    let (whole, places) := x.plainDigits
    let size := (digitValues whole).foldl (fun n digit => n * 10 + digit) 0
    if size < bound then
      let (size, scale) := withPlaces size 0 (digitValues places)
      some (signed x.negative size scale)
    else ofLarge? x
  else none

/-- `mantissa / 10 ^ scale` with the fewest places given up that make it fit, the last one kept
rounded with halves to even. None if even the whole number does not fit. -/
def fitted? (mantissa : Int) (scale : Nat) : Option Decimal :=
  (List.range (scale + 1)).findSome? fun dropped =>
    let size := Rounding.halfEven mantissa.natAbs (Nat.pow 10 dropped)
    if size < bound then some (signed (decide (mantissa < 0)) size (scale - dropped)) else none

/-- The mantissa of the same number with more places. -/
def mantissaAt (a : Decimal) (scale : Nat) : Int :=
  a.mantissa * (Nat.pow 10 (scale - a.scale) : Nat)

/-- The sum, unless it overflows. A zero leaves the other operand as it is. -/
def add? (a b : Decimal) : Option Decimal :=
  if a.mantissa = 0 then some b
  else if b.mantissa = 0 then some a
  else
    let scale := max a.scale b.scale
    fitted? (a.mantissaAt scale + b.mantissaAt scale) scale

/-- Takes `count` zeros off the end of the places of `size / 10 ^ scale`, if there are as many. -/
def dropZeros (count : Nat) : Nat × Nat → Nat × Nat
  | (size, scale) =>
    if count ≤ scale ∧ size % Nat.pow 10 count = 0 then
      (size / Nat.pow 10 count, scale - count)
    else (size, scale)

/-- Takes eight zeros off the end, if the size is also a multiple of `2 ^ 32`. -/
def dropEightZeros : Nat × Nat → Nat × Nat
  | (size, scale) => if size % 0x100000000 = 0 then dropZeros 8 (size, scale) else (size, scale)

/-- A quotient without zeros at its end. They are taken off in eights, which hardly any size
allows, and then four, two and one of them, so that of more than seven some can be left. -/
def trimmed (size scale : Nat) : Nat × Nat :=
  dropZeros 1 (dropZeros 2 (dropZeros 4
    (dropEightZeros (dropEightZeros (dropEightZeros (size, scale))))))

/-- How many places at once, up to nine, `size / 10 ^ scale` can be given. -/
def room (size scale : Nat) : Nat :=
  ((List.range 10).reverse.find? fun n =>
    scale + n ≤ maxScale ∧ size * Nat.pow 10 n < bound).getD 0

/-- How many places to add to the `scale` of `size` for its quotient by `n`: as many as there is
room for, time and again until nothing remains. -/
def quotientPlaces (size scale n : Nat) : (fuel : Nat) → (added : Nat) → Nat
  | 0, added => added
  | fuel + 1, added =>
    let scaled := size * Nat.pow 10 added
    let more := room (scaled / n) (scale + added)
    if scaled % n = 0 ∨ more = 0 then added else quotientPlaces size scale n fuel (added + more)

/-- The quotient by a positive whole number. Where it is not exact it has more places, and the last
one is rounded with halves to even. -/
def divide (a : Decimal) (n : Nat) : Decimal :=
  let size := a.mantissa.natAbs
  let negative := decide (a.mantissa < 0)
  if size % n = 0 then signed negative (size / n) a.scale
  else
    let quotient (added : Nat) := Rounding.halfEven (size * Nat.pow 10 added) n
    let added := quotientPlaces size a.scale n maxScale 0
    let added := if quotient added < bound then added else added - 1
    let (size, scale) := trimmed (quotient added) (a.scale + added)
    signed negative size scale

/-- The number rounded to at most two places, a half going away from zero. -/
def toCents (a : Decimal) : Decimal :=
  if a.scale ≤ 2 then a
  else
    let cents := Rounding.halfUp a.mantissa.natAbs (Nat.pow 10 (a.scale - 2))
    signed (decide (a.mantissa < 0)) cents 2

/-- The double of a decimal. A part behind the point is divided and added as a double, and the sum
is brought back to the nearest multiple of the last place. -/
def toDouble (a : Decimal) : Double :=
  let negative := decide (a.mantissa < 0)
  let size := a.mantissa.natAbs
  let unit := Nat.pow 10 a.scale
  let whole := Double.ofFraction negative (size / unit) 1
  if size % unit = 0 then whole
  else
    let places := Double.ofFraction false (size % unit) unit
    let (n, d) := whole.fraction
    let (m, e) := places.fraction
    let sum := Double.ofFraction false (n * e + m * d) (d * e)
    let scaled := Double.ofFraction false (sum.fraction.1 * unit) sum.fraction.2
    .ofFraction negative (Rounding.halfUp scaled.fraction.1 scaled.fraction.2) unit

example : ofDouble? (.ofDecimal true 1025 (-2)) = some ⟨-1025, 2⟩ := by decide +kernel

example : ofDouble? (.ofDecimal false 1 29) = none ∧
    ofDouble? (.ofInt (-0x1000000000000000000000000)) =
      some ⟨-79228162514264337593543950330, 0⟩ := by decide +kernel

example : add? ⟨1, 1⟩ ⟨25, 2⟩ = some ⟨35, 2⟩ ∧ add? ⟨bound - 1, 0⟩ ⟨1, 0⟩ = none := by
  decide +kernel

example : divide ⟨10, 1⟩ 4 = ⟨250, 3⟩ ∧ (divide ⟨2, 0⟩ 3).toCents = ⟨67, 2⟩ := by decide +kernel

example : toCents ⟨-1005, 3⟩ = ⟨-101, 2⟩ := by decide +kernel

end Decimal

end CampusQuery
