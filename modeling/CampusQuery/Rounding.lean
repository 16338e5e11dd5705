/-!
Rounding a quotient of natural numbers to a whole number.
-/

namespace CampusQuery.Rounding

/-- The whole number nearest to `num / den`; a half goes to the even neighbour. -/
def halfEven (num den : Nat) : Nat :=
  let floor := num / den
  let rest := num % den
  if 2 * rest < den then floor
  else if den < 2 * rest then floor + 1
  else floor + floor % 2

/-- The whole number nearest to `num / den`; a half goes up. -/
def halfUp (num den : Nat) : Nat :=
  if 2 * (num % den) < den then num / den else num / den + 1

example : [1, 3, 5, 7, 8].map (halfEven · 2) = [0, 2, 2, 4, 4] := by decide

example : [1, 3, 5, 7, 8].map (halfUp · 2) = [1, 2, 3, 4, 4] := by decide

end CampusQuery.Rounding
