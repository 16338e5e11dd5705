import CampusQuery.Storage.Directory
/-!
A tree of folders with a working directory, and paths in it.
-/

namespace CampusQuery.Storage

structure Disk where
  root : Directory
  /-- The names that lead from the root to the working directory. -/
  workingDirectory : List String

namespace Disk

/-- The steps of a path: what stands between its strokes, without steps that stay in place. -/
def steps (path : String) : List String :=
  ((path.toList.splitOn '/').map String.ofList).filter fun name => name != "" && name != "."

/-- The names that lead to where a path starts. -/
def origin (disk : Disk) (path : String) : List String :=
  if path.toList.head? = some '/' then [] else disk.workingDirectory

/-- What the names lead to. -/
def nodeAt (d : Directory) : List String → Except FileFault Node
  | [] => .ok (.folder d)
  | name :: names =>
    match d.find? name with
    | none => .error .absent
    | some (.folder entries) => nodeAt entries names
    | some (.file bytes) => if names.isEmpty then .ok (.file bytes) else .error .notDirectory

/-- The entries of the folder that the names lead to. -/
def folderAt (d : Directory) (names : List String) : Except FileFault Directory := do
  match ← nodeAt d names with
  | .folder entries => .ok entries
  | .file _ => .error .notDirectory

/-- Replaces the folder that the names lead to. -/
def replaceAt (new : Directory) : List String → Directory → Directory
  | [], _ => new
  | name :: names, d =>
    let old :=
      match d.find? name with
      | some (.folder entries) => entries
      | _ => []
    d.put name (.folder (replaceAt new names old))

/-- The most bytes of a name. -/
def longestName : Nat :=
  255

/-- The most bytes of a path. -/
def longestPath : Nat :=
  4095

/-- The most bytes that a name can have behind the path of its folder. -/
def longestNameIn (path : String) : Nat :=
  let stroke := if path.toList.getLast? = some '/' then 0 else 1
  min longestName (longestPath - (path.utf8ByteSize + stroke))

/-- Refuses what cannot be a path at all. -/
def checkPath (path : String) : Except FileFault Unit :=
  if '\x00' ∈ path.toList then .error .nulInPath
  else if path = "" then .error .absent
  else if longestPath < path.utf8ByteSize then .error .nameTooLong
  else .ok ()

/-- One step on the way of a path, from a folder. -/
def step (disk : Disk) (names : List String) (name : String) : Except FileFault (List String) := do
  let _ ← folderAt disk.root names
  if longestName < name.utf8ByteSize then throw .nameTooLong
  return if name = ".." then names.dropLast else names ++ [name]

/-- The names that a path leads along, if all but the last lead to folders. -/
def resolve (disk : Disk) (path : String) : Except FileFault (List String) := do
  checkPath path
  (steps path).foldlM disk.step (disk.origin path)

/-- A path that ends in a stroke, or in a step that stays in place, must lead to a folder. -/
def wantsFolder (path : String) : Bool :=
  ((path.toList.splitOn '/').getLast?.getD []) ∈ [[], ['.']]

/-- The bytes of the file of a path. -/
def read (disk : Disk) (path : String) : Except FileFault ByteArray := do
  match ← nodeAt disk.root (← disk.resolve path) with
  | .file bytes => if wantsFolder path then throw .notDirectory else return bytes
  | .folder _ => throw .isDirectory

/-- The text of the file of a path. -/
def readText (disk : Disk) (path : String) : Except FileFault String := do
  match String.fromUTF8? (← disk.read path) with
  | some text => return text
  | none => throw .notText

/-! ### Making folders -/

/-- The last step of a path stays in place. -/
def endsInPlace (path : String) : Bool :=
  ((path.toList.splitOn '/').filter (· ≠ [])).getLast? = some ['.']

/-- Makes the folder that steps lead to, if those on the way are there. A folder that is there
already will do. -/
def makeOne (start steps : List String) (disk : Disk) : Except FileFault Disk := do
  let names ← steps.foldlM disk.step start
  match nodeAt disk.root names with
  | .ok (.folder _) => return disk
  | .ok (.file _) => throw .exists
  | .error .absent => return { disk with root := replaceAt [] names disk.root }
  | .error fault => throw fault

/-- A step that stays in place makes nothing, so a path that ends in one needs its folder. -/
def makeNothing (start steps : List String) (disk : Disk) : Except FileFault Disk := do
  let _ ← folderAt disk.root (← steps.foldlM disk.step start)
  return disk

/-- Tries to make a folder, and again after `before` if something on the way is missing. What was
made on the way stays even if the folder cannot be made. -/
def makeAfter (before : Disk → Disk × Except FileFault Unit) (make : Disk → Except FileFault Disk)
    (disk : Disk) : Disk × Except FileFault Unit :=
  let settle (disk : Disk) : Except FileFault Disk → Disk × Except FileFault Unit
    | .ok disk => (disk, .ok ())
    | .error fault => (disk, .error fault)
  match make disk with
  | .error .absent =>
    match before disk with
    | (disk, .ok ()) => settle disk (make disk)
    | stuck => stuck
  | made => settle disk made

/-- Makes the folder that steps lead to, and those on the way. The last step comes first. -/
def makeWay (start : List String) : (stepsBack : List String) → Disk → Disk × Except FileFault Unit
  | [], disk => (disk, .ok ())
  | name :: back, disk => makeAfter (makeWay start back) (makeOne start (name :: back).reverse) disk

/-- Makes the folder of a path, with those on the way to it, and says which names lead there. -/
def makeFolder (disk : Disk) (path : String) : Disk × Except FileFault (List String) :=
  match checkPath path with
  | .error fault => (disk, .error fault)
  | .ok () =>
    let start := disk.origin path
    let way := steps path
    let make := if endsInPlace path then makeNothing start way else makeOne start way
    let (disk, made) := makeAfter (makeWay start way.reverse.tail) make disk
    (disk, made.bind fun _ => disk.resolve path)

/-- What was made on the way to a folder that cannot be made. -/
example : (makeFolder ⟨[], []⟩ "a/b/.").1.root.map (·.1) = ["a"] ∧
    (makeFolder ⟨[], []⟩ "a/b/.").2.toOption = none := by decide +kernel

example : (makeFolder ⟨[], []⟩ "a/../b/").2.toOption = some ["b"] := by decide +kernel

end Disk

end CampusQuery.Storage
