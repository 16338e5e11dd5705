import CampusQuery.Answer
import CampusQuery.Query.Validation
import CampusQuery.Storage.Store
/-!
The operations on a data directory: adding, removing, listing and querying datasets.

An engine holds nothing but the directory and two limits, so a new one over the same directory sees
what an earlier one did.
-/

namespace CampusQuery

open Storage

structure Engine where
  directory : Directory
  /-- The most rows of an answer. -/
  limit : Nat
  /-- The most bytes of the names of files, which a long path to the directory leaves few of. -/
  longestName : Nat

namespace Engine

/-- Files with longer names are there but out of reach. -/
def reach (e : Engine) (name : String) : Except Failure Unit :=
  if name.utf8ByteSize ≤ e.longestName then .ok () else .error (.file .nameTooLong)

/-- Files can be taken away, if their names are within reach. -/
def removable (e : Engine) (entry : String × Node) : Except Failure Unit := do
  e.reach entry.1
  if entry.2 matches .folder _ then throw (.file .isDirectory)

/-- An engine rid of leftovers. -/
def swept (e : Engine) : Except Failure Engine := do
  (e.directory.filter fun (name, _) => isLeftover name).forM e.removable
  return { e with directory := ← Store.sweep e.directory }

/-- What cannot be taken away stays. -/
def stays (e : Engine) (entry : String × Node) : Bool :=
  !(e.removable entry).isOk

/-- The engine where a leftover stays: those before it are gone. -/
def partlySwept (e : Engine) : Engine :=
  { e with directory := Store.sweepUntil e.stays e.directory }

/-- All datasets, in the order of their names. -/
def list (e : Engine) : List DatasetInfo :=
  Store.list (e.directory.filter fun (name, _) => name.utf8ByteSize ≤ e.longestName)

/-- The usable records of a kind, of which there must be one. -/
def usableRecords (kind : Kind) (records : List Record) : Except Failure (List Record) :=
  let usable := Dataset.usable kind records
  if usable.isEmpty then .error (.noUsableRecords kind) else .ok usable

/-- Stores the usable records of a kind under a new name; the answer is all names. -/
def add (e : Engine) (id : String) (kind : Kind) (records : List Record) :
    Except Failure (List String × Engine) := do
  (Dataset.checkId id).mapError .badId
  e.reach (fileName id)
  if Store.contains e.directory id then throw (.conflict id)
  let usable ← usableRecords kind records
  e.reach (anyTemporaryName id)
  let e := { e with directory := ← Store.put e.directory ⟨id, kind, usable⟩ }
  return (e.list.map (·.id), e)

/-- Takes away a dataset; the answer is its name. -/
def remove (e : Engine) (id : String) : Except Failure (String × Engine) := do
  (Dataset.checkId id).mapError .badId
  e.reach (fileName id)
  return (id, { e with directory := ← Store.remove e.directory id })

/-- The answer of a query. -/
def query (e : Engine) (j : Json) : Except Failure (List OutputRow) := do
  let q ← (Query.ofJson j).mapError .query
  e.reach (fileName q.dataset)
  let data ← Store.get e.directory q.dataset
  if data.kind ≠ q.kind then throw (.kindMismatch data.id data.kind q.kind)
  (q.execute e.limit data.records).mapError .answer

end Engine

end CampusQuery
