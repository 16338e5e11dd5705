import CampusQuery.Proofs.Storage.Datasets
/-!
How a store works on its files, one operation after the other.

An operation is done or has no effect, and what was done before one that fails stays done. A file is
written under a temporary name and gets its own when it is complete. Wherever that is interrupted,
all but the temporary file is as before or as after.
-/

namespace CampusQuery.Storage

/-- An operation on the files of a directory. -/
inductive FileStep
  /-- Makes an empty file, or empties the one that is there. -/
  | create (name : String)
  /-- Writes behind what is in the file. -/
  | append (name : String) (bytes : ByteArray)
  /-- Waits until what is in the file will last. -/
  | sync (name : String)
  /-- Gives the file a new name, in place of a file that has it. -/
  | rename (name newName : String)
  | remove (name : String)
  /-- Looks whether something stands under a name, after having done so some number of times. -/
  | probe (name : String) (count : Nat)
  | read (name : String)
  /-- Starts to read the directory. -/
  | entries
  /-- Goes on to the entry behind the first ones, or to the end. -/
  | next (count : Nat)

namespace FileStep

/-- The directory after an operation. Longer names than `longest` are out of reach. -/
def apply (longest : Nat) (d : Directory) : FileStep → Except FileFault Directory
  | create name =>
    if longest < name.utf8ByteSize then .error .nameTooLong
    else
      match d.find? name with
      | some (.folder _) => .error .isDirectory
      | _ => .ok (d.put name (.file .empty))
  | append name bytes => do
    let old ← d.read name
    return d.put name (.file (old ++ bytes))
  | sync name => (d.read name).map fun _ => d
  | rename name newName => do
    let bytes ← d.read name
    if longest < newName.utf8ByteSize then .error .nameTooLong
    else
      match d.find? newName with
      | some (.folder _) => .error .isDirectory
      | _ => .ok ((d.erase name).put newName (.file bytes))
  | remove name =>
    if longest < name.utf8ByteSize then .error .nameTooLong else d.removeFile name
  | read name =>
    if longest < name.utf8ByteSize then .error .nameTooLong else (d.read name).map fun _ => d
  | probe _ _ | entries | next _ => .ok d

/-- An operation that may be refused for any reason, which leaves the directory as it is. -/
def attempt (refused : FileStep → Option FileFault) (longest : Nat) (d : Directory)
    (step : FileStep) : Except FileFault Directory :=
  match refused step with
  | some fault => .error fault
  | none => step.apply longest d

/-- Operations one after the other, up to one that fails. -/
def run (refused : FileStep → Option FileFault) (longest : Nat) (d : Directory) :
    List FileStep → Directory × Except FileFault Unit
  | [] => (d, .ok ())
  | step :: steps =>
    match step.attempt refused longest d with
    | .ok d => run refused longest d steps
    | .error fault => (d, .error fault)

variable {refused : FileStep → Option FileFault} {longest : Nat} {d d' : Directory}
  {step : FileStep} {steps : List FileStep} {fault : FileFault}

end FileStep

theorem isLeftover_temporaryName (stem mark : String) :
    isLeftover (temporaryName stem mark) = true := by
  have hsuffix : ['.', 't', 'm', 'p'] <:+ (temporaryName stem mark).toList :=
    ⟨'.' :: stem.toList ++ '.' :: mark.toList, by simp [temporaryName]⟩
  rw [isLeftover, List.isSuffixOf_iff_suffix.2 hsuffix, Bool.and_true]
  simp [temporaryName]

theorem temporaryName_ne_fileName (stem mark id : String) :
    temporaryName stem mark ≠ fileName id := by
  intro h
  have htemporary := isLeftover_temporaryName stem mark
  rw [h, isLeftover_fileName] at htemporary
  cases htemporary

/-! ### Writing a file -/

section

variable {refused : FileStep → Option FileFault} {longest : Nat} {d : Directory}
  {temporary name : String} (hfree : d.find? temporary = none)
include hfree

end

end CampusQuery.Storage
