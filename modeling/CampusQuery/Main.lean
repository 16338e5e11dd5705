import CampusQuery.Program
import CampusQuery.Shell.Duration
import CampusQuery.Shell.Prompt
/-!
The command line: arguments, environment, files, the data directory, standard streams and the clock
around the program.

Nothing of the data directory is kept from one piece of input to the next. It is read before each,
and what an input changes is written after it.
-/

namespace CampusQuery.CommandLine

open Storage

/-! ### Files and folders -/

/-- What an error of the operating system is to the program. -/
def faultOf : IO.Error → FileFault
  | .noFileOrDirectory _ _ _ => .absent
  | .alreadyExists _ _ _ => .exists
  | .inappropriateType _ 20 _ => .notDirectory
  | .inappropriateType _ 21 _ => .isDirectory
  | .invalidArgument _ 36 _ => .nameTooLong
  | error => .other (toString error)

/-- The result of an action, with its errors as faults. -/
def attempt {α : Type} (action : IO α) : IO (Except FileFault α) := do
  return (← action.toBaseIO).mapError faultOf

/-- The text of a file. -/
def readText (path : String) : IO (Except FileFault String) := do
  return (← attempt (IO.FS.readBinFile path)).bind fun bytes =>
    match String.fromUTF8? bytes with
    | some text => .ok text
    | none => .error .notText

/-- The texts of some files. All others are taken to be absent. -/
def readFiles (paths : List String) : IO Files := do
  let texts ← paths.mapM fun path => return (path, ← readText path)
  return fun path => (texts.lookup path).getD (.error .absent)

/-- What stands at a path. What cannot be read as a file counts as a folder. -/
def readNode (path : String) : IO Node := do
  match ← attempt (IO.FS.readBinFile path) with
  | .ok bytes => return .file bytes
  | .error _ => return .folder []

/-- The entries of a folder. -/
def readFolder (path : String) : IO Directory := do
  let entries ← (← IO.FS.realPath path).readDir
  entries.toList.mapM fun entry =>
    return (entry.fileName, ← readNode (path ++ "/" ++ entry.fileName))

/-- The entries of a folder, which is made if it is missing. -/
def openFolder (path : String) : IO (Except FileFault Directory) :=
  if path = "" then return .error .absent
  else
    attempt do
      IO.FS.createDirAll path
      readFolder path

/-- Writes what changed in a folder. A new file gets its name once it is complete. -/
def writeFolder (path : String) (old new : Directory) : IO Unit := do
  for (name, node) in new do
    if let .file bytes := node then
      if (old.find? name).isNone then
        let stem := (datasetStem? name).getD name
        let mark := String.ofList (hex (← IO.getRandomBytes 16).data.toList)
        let temporary := path ++ "/" ++ temporaryName stem mark
        IO.FS.writeBinFile temporary bytes
        IO.FS.rename temporary (path ++ "/" ++ name)
  for (name, _) in old do
    if (new.find? name).isNone then IO.FS.removeFile (path ++ "/" ++ name)

/-! ### Running -/

/-- Shows printed text, given the durations in it. -/
def put (operation total : Nat) (p : Printed) : IO Unit := do
  let stream ← if p.isError then IO.getStderr else IO.getStdout
  stream.putStr (p.text operation total)
  stream.flush

/-- The folder of the datasets, and the time of the start. -/
structure Session where
  folder : String
  started : Nat

/-- Takes the next piece of input and shows what comes of it. -/
def step (session : Session) (run : Shell.Run) : IO Shell.Run := do
  let directory ← readFolder session.folder
  let run := { run with shell.engine.directory := directory }
  let files ← readFiles run.nextSource?.toList
  let before ← IO.monoNanosNow
  let run := run.next fun _ => files
  writeFolder session.folder directory run.shell.engine.directory
  let now ← IO.monoNanosNow
  run.shell.printed.reverse.forM (put (now - before) (now - session.started))
  return { run with shell.printed := [] }

/-- Takes input until no more than `left` pieces are there. -/
partial def takeAll (session : Session) (left : Nat) (run : Shell.Run) : IO Shell.Run := do
  if run.inputs.length ≤ left then return run
  takeAll session left (← step session run)

/-- Takes lines as they are typed. -/
partial def converse (session : Session) (run : Shell.Run) : IO Shell.Run := do
  let shell := run.shell
  put 0 0 (.out (Shell.prompt shell.continuing shell.queries shell.mode false))
  let line ← (← IO.getStdin).getLine
  let total := (← IO.monoNanosNow) - session.started
  if line.isEmpty then
    (shell.line "").goodbye.printed.reverse.forM (put 0 total)
    return run
  let inputs := (Text.lines line).map Shell.Input.line ++ [.finish]
  let run ← takeAll session 1 { run with inputs }
  if run.inputs.isEmpty then return run
  converse session run

/-- The input of a run is what is typed. -/
def isInteractive (arguments : Shell.Arguments) : IO Bool := do
  if arguments.script.isSome || !arguments.commands.isEmpty then return false
  (← IO.getStdin).isTty

/-- A run with valid arguments, up to its exit code. -/
def run (arguments : Shell.Arguments) : IO Nat := do
  let started ← IO.monoNanosNow
  let stop (fault : Program.StartFault) : IO Nat := do
    put 0 0 (.err fault.report)
    return 1
  let environment : Program.Environment :=
    ⟨← IO.getEnv "INSIGHT_CONFIG", ← IO.getEnv "INSIGHT_DATA_DIR",
      ← IO.getEnv "INSIGHT_MAX_RESULTS"⟩
  let files ← readFiles (Program.startPaths arguments environment)
  match Program.settings arguments environment files with
  | .error fault => stop fault
  | .ok settings =>
    let folder := settings.dataDirectory
    match (← openFolder folder).mapError Failure.file with
    | .error failure => stop (.dataDirectory folder failure)
    | .ok directory =>
      let unswept := Program.unswept settings directory
      match unswept.swept with
      | .error failure =>
        writeFolder folder directory unswept.partlySwept.directory
        stop (.dataDirectory folder failure)
      | .ok engine =>
        writeFolder folder directory engine.directory
        let session : Session := ⟨folder, started⟩
        let shell := Program.shell arguments files engine
        if ← isInteractive arguments then
          let run ← converse session (.start shell [] arguments.exitOnError)
          return run.exitCode
        let stdin ←
          if arguments.script.isNone && arguments.commands.isEmpty then
            (← IO.getStdin).readToEnd
          else pure ""
        match Program.source arguments files stdin with
        | .error fault => stop fault
        | .ok source =>
          let run ← takeAll session 0 (.start shell source.inputs arguments.exitOnError)
          return run.exitCode

end CampusQuery.CommandLine

open CampusQuery in
/-- The program. -/
def main (args : List String) : IO UInt32 := do
  match Shell.Arguments.request args with
  | .run arguments => return .ofNat (← CommandLine.run arguments)
  | _ =>
    let outcome := Program.run args ⟨none, none, none⟩ ⟨[], []⟩ ""
    outcome.printed.forM (CommandLine.put 0 0)
    return .ofNat outcome.code
