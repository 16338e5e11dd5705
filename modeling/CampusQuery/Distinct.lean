import Std.Data.HashSet
/-!
Keeping the first of each: the elements of a list whose key no earlier element has.
-/

namespace CampusQuery

variable {α κ : Type} [BEq κ] [Hashable κ]

/-- The elements whose key is neither in `seen` nor the key of an earlier element. -/
def distinctFrom (key : α → κ) (seen : Std.HashSet κ) : List α → List α
  | [] => []
  | a :: l =>
    if seen.contains (key a) then distinctFrom key seen l
    else a :: distinctFrom key (seen.insert (key a)) l

/-- The elements of `l` whose key no earlier element has. -/
def distinctBy (key : α → κ) (l : List α) : List α :=
  distinctFrom key ∅ l

end CampusQuery
