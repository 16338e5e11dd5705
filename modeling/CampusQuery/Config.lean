import CampusQuery.Answer
import CampusQuery.Failure
import CampusQuery.Toml.Reader
/-!
Settings: where the datasets are and how many rows an answer may have.

A file of settings comes first, and the environment overrides it.
-/

namespace CampusQuery

structure Settings where
  dataDirectory : String
  limit : Nat
deriving DecidableEq, Repr

namespace Settings

/-- The settings where nothing else is said. -/
def standard : Settings :=
  ⟨"./data", defaultLimit⟩

/-- A natural number of sixty-four bits in decimal digits, in front of which a plus may stand. -/
def natOfText? (s : String) : Option Nat := do
  let digits := match s.toList with
    | '+' :: rest => rest
    | l => l
  if digits.isEmpty then none
  let n ← digits.foldlM (fun n c => (Toml.digitValue? 10 c).map (n * 10 + ·)) 0
  if n < 0x10000000000000000 then some n else none

/-- The settings in the entries of a file. Entries of other names are of no account. -/
def ofEntries (entries : List (String × Toml.Value)) : Except ConfigFault Settings := do
  let dataDirectory ←
    match entries.lookup "data_dir" with
    | none => pure standard.dataDirectory
    | some (.text s) => pure s
    | some _ => throw .malformed
  let limit ←
    match entries.lookup "max_results" with
    | none => pure standard.limit
    | some (.integer n) => if 0 ≤ n then pure n.toNat else throw .malformed
    | some _ => throw .malformed
  if limit = 0 then throw .limitNotPositive
  return ⟨dataDirectory, limit⟩

/-- The settings that the text of a file makes. -/
def ofText (s : String) : Except ConfigFault Settings :=
  match Toml.read? s with
  | some entries => ofEntries entries
  | none => .error .malformed

/-- A data directory and a positive limit from the environment go before those of the file. -/
def override (settings : Settings) (dataDirectory limit : Option String) : Settings :=
  { dataDirectory := dataDirectory.getD settings.dataDirectory
    limit := ((limit.bind natOfText?).filter (0 < ·)).getD settings.limit }

/-- The settings from the text of a file, if there is one, and the environment. -/
def load (file dataDirectory limit : Option String) : Except ConfigFault Settings := do
  let settings ← (file.map ofText).getD (.ok standard)
  return settings.override dataDirectory limit

end Settings

end CampusQuery
