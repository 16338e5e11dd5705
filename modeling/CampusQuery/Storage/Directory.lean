import CampusQuery.Assignment
/-!
Directories as values: named files with their bytes, and named folders.
-/

namespace CampusQuery.Storage

/-- What stands under a name. -/
inductive Node
  | file (bytes : ByteArray)
  | folder (entries : List (String × Node))
deriving Inhabited

/-- The entries of a directory, each name once. -/
abbrev Directory :=
  List (String × Node)

/-- Why a file cannot be read, written or removed. -/
inductive FileFault
  | absent
  | exists
  | notDirectory
  | isDirectory
  | nameTooLong
  | nulInPath
  | notText
  /-- What the operating system says in any other case. -/
  | other (text : String)
deriving DecidableEq, Repr

namespace FileFault

/-- The wording of the operating system. -/
def message : FileFault → String
  | absent => "No such file or directory (os error 2)"
  | .exists => "File exists (os error 17)"
  | notDirectory => "Not a directory (os error 20)"
  | isDirectory => "Is a directory (os error 21)"
  | nameTooLong => "File name too long (os error 36)"
  | nulInPath => "file name contained an unexpected NUL byte"
  | notText => "stream did not contain valid UTF-8"
  | other text => text

end FileFault

namespace Directory

def empty : Directory :=
  []

/-- What stands under a name. -/
def find? (d : Directory) (name : String) : Option Node :=
  d.lookup name

/-- The names of all entries. -/
def names (d : Directory) : List String :=
  d.map (·.1)

/-- Puts a node under a name. -/
def put (d : Directory) (name : String) (node : Node) : Directory :=
  assign name node d

/-- Takes away what stands under a name. -/
def erase (d : Directory) (name : String) : Directory :=
  d.filter (·.1 != name)

/-- The bytes of a file. -/
def read (d : Directory) (name : String) : Except FileFault ByteArray :=
  match d.find? name with
  | some (.file bytes) => .ok bytes
  | some (.folder _) => .error .isDirectory
  | none => .error .absent

/-- Takes away a file. -/
def removeFile (d : Directory) (name : String) : Except FileFault Directory :=
  match d.find? name with
  | some (.file _) => .ok (d.erase name)
  | some (.folder _) => .error .isDirectory
  | none => .error .absent

end Directory

end CampusQuery.Storage
