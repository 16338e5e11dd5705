import CampusQuery.Shell.Arguments
import CampusQuery.Shell.Run
import CampusQuery.Storage.Disk
/-!
The program: arguments, environment, disk and standard input in; printed text, an exit code and the
disk out.
-/

namespace CampusQuery

open Storage

namespace Program

/-- The settings of the environment. -/
structure Environment where
  config : Option String
  dataDirectory : Option String
  limit : Option String

/-- What a run of the program leaves. -/
structure Outcome where
  code : Nat
  printed : List Printed
  disk : Disk

/-- Why the program does not start. -/
inductive StartFault
  | config (path : String) (failure : Failure)
  | dataDirectory (path : String) (failure : Failure)
  | script (path : String) (fault : FileFault)

namespace StartFault

/-- What was attempted. -/
def attempt : StartFault → String
  | config path _ => s!"Failed to load config {path}"
  | dataDirectory path _ => s!"Failed to open data directory {path}"
  | script path _ => s!"Failed to read {path}"

/-- The causes, each of them caused by the next. -/
def causes : StartFault → List String
  | config _ failure | dataDirectory _ failure =>
    match failure with
    | .file fault => [failure.message, fault.message]
    | _ => [failure.message]
  | script _ fault => [fault.message]

/-- The report of a fault: several causes are numbered. -/
def report (fault : StartFault) : String :=
  let causes :=
    match fault.causes with
    | [cause] => [s!"    {cause}"]
    | causes => causes.zipIdx.map fun (cause, i) => s!"    {i}: {cause}"
  "\n".intercalate (["Error: " ++ fault.attempt, "", "Caused by:"] ++ causes) ++ "\n"

end StartFault

/-- The name and version. -/
def version : String :=
  "insight 0.1.0"

/-- The text on the options. -/
def usage : String :=
  "Query sections and rooms datasets with JSON queries\n\n" ++
    "Usage: insight [OPTIONS]\n\n" ++
    "Options:\n" ++
    "      --config <PATH>    TOML config file (INSIGHT_CONFIG overrides) " ++
    "[default: insight.toml]\n" ++
    "      --data-dir <PATH>  Data directory; wins over the config file and INSIGHT_DATA_DIR\n" ++
    "  -c, --command <CMD>    Run a command or query and exit (repeatable)\n" ++
    "  -f, --file <PATH>      Run commands and queries from a file\n" ++
    "  -q, --quiet            Suppress banners and timing\n" ++
    "      --format <FORMAT>  Output format: table, json or csv\n" ++
    "      --exit-on-error    Stop with exit status 1 at the first failing command\n" ++
    "      --no-history       Do not read or write the history file\n" ++
    "  -h, --help             Print help\n" ++
    "  -V, --version          Print version\n"

/-- The file of the history, in the working directory. -/
def historyPath : String :=
  ".insight_history"

/-- The file of settings that the arguments name. -/
def configPath (arguments : Shell.Arguments) : String :=
  arguments.config.getD "insight.toml"

/-- The file of settings that is read: the environment may name another. -/
def settingsPath (arguments : Shell.Arguments) (environment : Environment) : String :=
  environment.config.getD (configPath arguments)

/-- The settings of a run. A data directory among the arguments goes before all others. -/
def settings (arguments : Shell.Arguments) (environment : Environment) (files : Files) :
    Except StartFault Settings := do
  let named := configPath arguments
  let file ←
    match files (settingsPath arguments environment) with
    | .ok text => pure (some text)
    | .error .absent => pure none
    | .error fault => throw (.config named (.file fault))
  let settings ← (Settings.load file environment.dataDirectory environment.limit).mapError
    fun fault => .config named (.config fault)
  return { settings with
    dataDirectory := arguments.dataDirectory.getD settings.dataDirectory }

/-- The entries of earlier sessions, if they are wanted and can be read. -/
def history (arguments : Shell.Arguments) (files : Files) : List String :=
  if arguments.noHistory then []
  else
    match files historyPath with
    | .ok text => Shell.History.ofText text
    | .error _ => []

/-- Where the input of a run comes from. -/
def source (arguments : Shell.Arguments) (files : Files) (stdin : String) :
    Except StartFault Shell.Source :=
  match arguments.script with
  | some path => ((files path).mapError (.script path)).map .script
  | none =>
    if arguments.commands.isEmpty then .ok (.script stdin) else .ok (.texts arguments.commands)

/-- The shell of a run at its start. -/
def shell (arguments : Shell.Arguments) (files : Files) (engine : Engine) : Shell :=
  Shell.start engine (history arguments files) (arguments.format.getD .table) arguments.quiet

/-- The files that a start reads. -/
def startPaths (arguments : Shell.Arguments) (environment : Environment) : List String :=
  settingsPath arguments environment :: historyPath :: arguments.script.toList

/-- The engine over a directory that has not been swept. -/
def unswept (settings : Settings) (d : Directory) : Engine :=
  ⟨d, settings.limit, Disk.longestNameIn settings.dataDirectory⟩

/-- The disk with the data directory as the engine has it. -/
def withData (disk : Disk) (names : List String) (directory : Directory) : Disk :=
  { disk with root := Disk.replaceAt directory names disk.root }

/-- Opens the data directory: the disk with it, the names that lead to it, and an engine. -/
def openData (settings : Settings) (disk : Disk) :
    Disk × Except StartFault (List String × Engine) :=
  let (disk, made) := disk.makeFolder settings.dataDirectory
  let fault := StartFault.dataDirectory settings.dataDirectory
  let found : Except Failure (List String × Directory) := do
    let names ← made.mapError .file
    return (names, ← (Disk.folderAt disk.root names).mapError .file)
  match found with
  | .error failure => (disk, .error (fault failure))
  | .ok (names, directory) =>
    let engine := unswept settings directory
    match engine.swept with
    | .error failure =>
      (withData disk names engine.partlySwept.directory, .error (fault failure))
    | .ok engine => (disk, .ok (names, engine))

/-- A program that has started: the disk, the names that lead to its data directory, a shell, and
where its input comes from. -/
structure Session where
  disk : Disk
  names : List String
  shell : Shell
  source : Shell.Source

namespace Session

/-- The disk with the data directory as an engine has it. -/
def diskWith (session : Session) (directory : Directory) : Disk :=
  withData session.disk session.names directory

/-- Takes all input. -/
def run (session : Session) (exitOnError : Bool) : Shell.Run :=
  (Shell.Run.start session.shell session.source.inputs exitOnError).all fun directory =>
    (session.diskWith directory).readText

/-- What the program leaves once all input is taken. -/
def outcome (session : Session) (exitOnError : Bool) : Outcome :=
  let run := session.run exitOnError
  ⟨run.exitCode, run.shell.printed.reverse, session.diskWith run.shell.engine.directory⟩

end Session

/-- The start of the program with valid arguments: the disk that it leaves, and the session. -/
def start (arguments : Shell.Arguments) (environment : Environment) (disk : Disk)
    (stdin : String) : Disk × Except StartFault Session :=
  match settings arguments environment disk.readText with
  | .error fault => (disk, .error fault)
  | .ok settings =>
    match openData settings disk with
    | (disk, .error fault) => (disk, .error fault)
    | (disk, .ok (names, engine)) =>
      let disk := withData disk names engine.directory
      (disk, (source arguments disk.readText stdin).map fun source =>
        ⟨disk, names, shell arguments disk.readText engine, source⟩)

/-- A run with valid arguments. -/
def runWith (arguments : Shell.Arguments) (environment : Environment) (disk : Disk)
    (stdin : String) : Outcome :=
  match start arguments environment disk stdin with
  | (disk, .error fault) => ⟨1, [.err fault.report], disk⟩
  | (_, .ok session) => session.outcome arguments.exitOnError

/-- The program. -/
def run (arguments : List String) (environment : Environment) (disk : Disk) (stdin : String) :
    Outcome :=
  match Shell.Arguments.request arguments with
  | .run arguments => runWith arguments environment disk stdin
  | .version => ⟨0, [.out (version ++ "\n")], disk⟩
  | .help => ⟨0, [.out usage], disk⟩
  | .misused => ⟨2, [.err "error: the arguments cannot be understood\n"], disk⟩

end Program

end CampusQuery
