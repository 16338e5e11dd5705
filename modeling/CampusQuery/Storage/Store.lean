import CampusQuery.Failure
import CampusQuery.Storage.DatasetFile
import CampusQuery.Storage.FileName
/-!
A data directory as a store of datasets.

The files are all there is: what datasets exist is read off the directory every time. A dataset
appears and disappears as one file. Leftovers are taken away one by one; any other operation that
fails leaves the directory as it was.
-/

namespace CampusQuery.Storage.Store

/-- Something stands where the dataset's file would be. -/
def contains (d : Directory) (id : String) : Bool :=
  (d.find? (fileName id)).isSome

/-- Adds a dataset under a free name. -/
def put (d : Directory) (data : Dataset) : Except Failure Directory :=
  if contains d data.id then .error (.conflict data.id)
  else
    let file : DatasetFile := ⟨data.id, data.kind, data.records.length, data.records⟩
    .ok (Directory.put d (fileName data.id) (.file file.encode))

/-- What a fault of the file of a dataset means. -/
def fileFailure (id : String) : FileFault → Failure
  | .absent => .notFound id
  | fault => .file fault

/-- Takes away a dataset. -/
def remove (d : Directory) (id : String) : Except Failure Directory :=
  (Directory.removeFile d (fileName id)).mapError (fileFailure id)

/-- What a dataset's file says must be about that dataset, and true of the records it holds. -/
def checked (id : String) (file : DatasetFile) : Except StorageFault Dataset :=
  if file.id ≠ id then .error (.misplaced id file.id)
  else if file.size ≠ file.records.length then
    .error (.sizeMismatch id file.size file.records.length)
  else if file.records.any (·.kind != file.kind) then .error (.kindMismatch id file.kind)
  else .ok ⟨file.id, file.kind, file.records⟩

/-- Loads a dataset with all of its records. -/
def get (d : Directory) (id : String) : Except Failure Dataset := do
  let bytes ← (Directory.read d (fileName id)).mapError (fileFailure id)
  let some file := DatasetFile.decode? bytes | throw (.storage (.unparsable id))
  (checked id file).mapError .storage

/-- The dataset that an entry holds, if its name and its header belong together. -/
def info? : String × Node → Option DatasetInfo
  | (name, .file bytes) => do
    let stem ← datasetStem? name
    let info ← DatasetFile.header? bytes
    if stemOf info.id = stem then some info else none
  | (_, .folder _) => none

/-- All datasets, in the order of their names. -/
def list (d : Directory) : List DatasetInfo :=
  (d.filterMap info?).mergeSort fun a b => (compare a.id b.id).isLE

/-- The directory without the leftovers of interrupted writes. A folder in their place cannot be
taken away. -/
def sweep (d : Directory) : Except Failure Directory :=
  let leftovers := d.filter fun (name, _) => isLeftover name
  if leftovers.any fun (_, node) => node matches .folder _ then .error (.file .isDirectory)
  else .ok (d.filter fun (name, _) => !isLeftover name)

/-- What a sweep leaves that stops at the first leftover that stays. The entries are in the order in
which the directory is read. -/
def sweepUntil (stays : String × Node → Bool) : Directory → Directory
  | [] => []
  | entry :: d =>
    if isLeftover entry.1 then
      if stays entry then entry :: d else sweepUntil stays d
    else entry :: sweepUntil stays d

end CampusQuery.Storage.Store
