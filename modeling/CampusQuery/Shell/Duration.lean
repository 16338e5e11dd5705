import CampusQuery.Rounding
import CampusQuery.Shell
/-!
Durations as the shell shows them, and printed text with its durations filled in.
-/

namespace CampusQuery

namespace Shell

/-- `num / den` with `places` places, a half going up. -/
def fixedPlaces (places num den : Nat) : String :=
  let unit := Nat.pow 10 places
  let scaled := Rounding.halfUp (num * unit) den
  let digits := Nat.toDigits 10 (scaled % unit)
  toString (scaled / unit) ++ "." ++
    .ofList (List.replicate (places - digits.length) '0' ++ digits)

/-- Nanoseconds as milliseconds. -/
def milliseconds (nanos : Nat) : String :=
  fixedPlaces 3 nanos 1000000 ++ "ms"

/-- Nanoseconds in the largest unit that they fill. -/
def briefDuration (nanos : Nat) : String :=
  if 1000000000 ≤ nanos then fixedPlaces 1 nanos 1000000000 ++ "s"
  else if 1000000 ≤ nanos then fixedPlaces 1 nanos 1000000 ++ "ms"
  else if 1000 ≤ nanos then fixedPlaces 1 nanos 1000 ++ "µs"
  else fixedPlaces 1 nanos 1 ++ "ns"

example : milliseconds 1234567 = "1.235ms" ∧ milliseconds 49999 = "0.050ms" := by decide +kernel

example : briefDuration 950 = "950.0ns" ∧ briefDuration 2050000000 = "2.1s" := by decide +kernel

end Shell

namespace Printed

/-- The text is an error. -/
def isError : Printed → Bool
  | err _ => true
  | _ => false

/-- The text with the duration of the last operation, or that since the start, in nanoseconds. -/
def text (operation total : Nat) : Printed → String
  | out s | err s => s
  | elapsed => "  Time: " ++ Shell.milliseconds operation ++ "\n"
  | uptime n => s!"   Ran {n} queries in " ++ Shell.briefDuration total ++ "\n"

end Printed

end CampusQuery
