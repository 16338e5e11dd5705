import CampusQuery.Dataset.Loading
import CampusQuery.Display.Rows
import CampusQuery.Engine
import CampusQuery.Shell.Command
import CampusQuery.Shell.History
/-!
The shell: lines in, effects on the datasets and printed text out.

A line is a command, or a part of a query. A query may go on over several lines; it is run as soon
as its text is complete, and given up as soon as it can no longer become complete or a blank line
follows.
-/

namespace CampusQuery

open Storage

/-- Printed text, on the standard output or among the errors. Durations are filled in where it is
shown. -/
inductive Printed
  | out (text : String)
  | err (text : String)
  /-- The time that the last operation took. -/
  | elapsed
  /-- The number of queries, and the time since the start. -/
  | uptime (queries : Nat)
deriving DecidableEq, Repr

/-- Whether the shell goes on after a line. -/
inductive Flow
  | go
  | exit
  /-- The line is never done: entries of the history ask for one another without end, until there is
  no room left for it. -/
  | overflow
deriving DecidableEq, Repr

structure Shell where
  engine : Engine
  history : List String
  mode : OutputMode
  timing : Bool
  quiet : Bool
  /-- The lines of a query that is not complete. -/
  buffer : String
  /-- Further lines belong to the query in the buffer. -/
  continuing : Bool
  queries : Nat
  failures : Nat
  /-- What has been printed, the latest first. -/
  printed : List Printed

/-- How files outside the store are read, by their paths. -/
abbrev Files :=
  String → Except FileFault String

namespace Shell

/-- A shell at its start. -/
def start (engine : Engine) (history : List String) (mode : OutputMode) (quiet : Bool) : Shell :=
  ⟨engine, history, mode, !quiet, quiet, "", false, 0, 0, []⟩

/-! ### Printing -/

def print (s : Shell) (p : Printed) : Shell :=
  { s with printed := p :: s.printed }

/-- Prints a line. -/
def line (s : Shell) (text : String) : Shell :=
  s.print (.out (text ++ "\n"))

def info (s : Shell) (text : String) : Shell :=
  s.line ("ℹ " ++ text)

def success (s : Shell) (text : String) : Shell :=
  s.line ("✓ " ++ text)

/-- Prints the time of the last operation where that is wanted. -/
def time (s : Shell) : Shell :=
  if s.timing then s.print .elapsed else s

/-- Prints an error. -/
def error (s : Shell) (text : String) : Shell :=
  s.print (.err ("✗ " ++ text ++ "\n"))

/-- Prints an error and counts it. -/
def fail (s : Shell) (text : String) : Shell :=
  { s.error text with failures := s.failures + 1 }

/-- A failure of the engine with its kind. -/
def tagged (failure : Failure) : String :=
  s!"[{failure.kind}] {failure.message}"

/-- `text` behind as many spaces as make it `width` characters. -/
def padLeft (width : Nat) (text : String) : String :=
  .ofList (List.replicate (width - text.length) ' ') ++ text

/-- `text` before as many spaces as make it `width` characters. -/
def padRight (width : Nat) (text : String) : String :=
  text ++ .ofList (List.replicate (width - text.length) ' ')

/-- A line of `n` strokes. -/
def rule (n : Nat) : String :=
  .ofList (List.replicate n '─')

/-! ### Queries -/

def showRows (s : Shell) (rows : List OutputRow) : Shell :=
  let s :=
    match s.mode with
    | .table =>
      (s.line (Display.tableText rows)).line s!"  {rows.length} row(s)"
    | .json => s.line (Display.jsonText rows)
    | .csv =>
      match Display.csvText? rows with
      | some text => s.print (.out text)
      | none => s.error "Failed to write CSV: found record with a different number of fields"
  s.time

/-- Prints a query by its lines, if there are few of them. -/
def echo (s : Shell) (text : String) : Shell :=
  let lines := Text.lines (Text.trim text)
  if lines.isEmpty || 5 < lines.length then s
  else
    lines.zipIdx.foldl
      (fun s (text, i) => s.print (.err s!"{padLeft 3 (toString (i + 1))} │ {text}\n"))
      (s.print (.err "Query:\n"))

/-- Prints why a query failed and, if it is short, the query. -/
def showQueryFailure (s : Shell) (failure : Failure) (text : String) : Shell :=
  (s.error (tagged failure)).echo text

/-- Runs a query that was written as `text`. -/
def runQuery (s : Shell) (query : Json) (text : String) : Shell :=
  let s := { s with queries := s.queries + 1 }
  match s.engine.query query with
  | .ok rows => s.showRows rows
  | .error failure => { s with failures := s.failures + 1 }.showQueryFailure failure text

/-- What is said of a text that is not JSON. -/
def invalidJson (error : Json.ReadError) : String :=
  match error with
  | .endedEarly => "Invalid JSON: the text ends too early"
  | .malformed => "Invalid JSON: the text is malformed"

/-- Runs the query that a text writes. -/
def runText (s : Shell) (text : String) : Shell :=
  match Json.read text with
  | .ok query => s.runQuery query text
  | .error error => s.fail (invalidJson error)

/-! ### Commands -/

/-- The pairs of the help text; one half or both may be empty. -/
def helpEntries : List (String × String) :=
  [(".help, .h, .?", "Show this help message"),
    (".exit, .quit, .q", "Exit the shell"),
    (".clear, .cls", "Clear the screen"),
    ("", ""),
    ("Datasets:", ""),
    (".datasets, .ls", "List stored datasets"),
    (".add <id> <kind> <file>", "Add a sections or rooms dataset from a JSON array"),
    (".remove <id>", "Remove a dataset"),
    ("", ""),
    ("Display Options:", ""),
    (".timing, .time", "Toggle query timing"),
    (".mode <format>", "Set output format (table/json/csv)"),
    ("", ""),
    ("History:", ""),
    (".history, .hist", "Show history"),
    (".history <n>", "Run history entry n")]

/-- The lines of the help text. -/
def helpLines : List String :=
  ["", "Insight Commands", rule 50] ++
    helpEntries.map (fun (command, text) =>
      if command = "" then "" else if text = "" then command
      else "  " ++ padRight 26 command ++ " " ++ text) ++
    ["", "Query Input:",
      "  • Type a JSON query; it runs as soon as the JSON is complete",
      "  • An empty line submits whatever has been typed",
      "  • Ctrl+C cancels current input",
      "  • Ctrl+D exits the shell",
      "",
      "Example:",
      "  \x7b\"WHERE\": \x7b\"GT\": \x7b\"ubc_avg\": 97\x7d\x7d, " ++
        "\"OPTIONS\": \x7b\"COLUMNS\": [\"ubc_dept\", \"ubc_avg\"], \"ORDER\": \"ubc_avg\"\x7d\x7d",
      ""]

def showDatasets (s : Shell) : Shell :=
  let datasets := s.engine.list
  let cells := datasets.map fun d => [d.id, d.kind.name, toString d.rows]
  match s.mode with
  | .json => s.line (Json.array (datasets.map DatasetInfo.toJson)).pretty
  | .csv =>
    match Display.csvTextOf? ["id", "kind", "numRows"] cells with
    | some text => s.print (.out text)
    | none => s
  | .table =>
    if datasets.isEmpty then s.info "No datasets found"
    else s.line (Display.drawTable ["id", "kind", "rows"] cells)

def showHistory (s : Shell) : Shell :=
  if s.history.isEmpty then s.line "No history available"
  else
    let entries := s.history.zipIdx.drop (s.history.length - History.shown)
    let s := ((s.line "").line "History:").line (rule 60)
    let s := entries.foldl (fun s (entry, i) =>
      s.line s!"{padLeft 4 (toString (i + 1))} │ {History.oneLine entry 60}") s
    (s.line (rule 60)).line "Use .history <n> to run entry n"

/-- The records of a file, or what is said if it has none. -/
def loadRecords (files : Files) (path : String) : Except String (List Record) :=
  match files path with
  | .error fault => .error s!"Failed to read {path}: {fault.message}"
  | .ok text =>
    match Record.ofText text with
    | .ok records => .ok records
    | .error .notJson => .error s!"Failed to parse {path}: the text is not JSON"
    | .error .notArray => .error s!"{path} must contain a JSON array of records"

def addDataset (s : Shell) (files : Files) (id : String) (kind : Kind) (path : String) : Shell :=
  match loadRecords files path with
  | .error text => s.fail text
  | .ok records =>
    match s.engine.add id kind records with
    | .error failure => s.fail (tagged failure)
    | .ok (ids, engine) =>
      let s := { s with engine }.success s!"Added dataset '{id}'"
      (s.info ("Datasets: " ++ ", ".intercalate ids)).time

def removeDataset (s : Shell) (id : String) : Shell :=
  match s.engine.remove id with
  | .error failure => s.fail (tagged failure)
  | .ok (id, engine) => { s with engine }.success s!"Removed dataset '{id}'"

/-- The last words of the shell. -/
def goodbye (s : Shell) : Shell :=
  if s.quiet then s
  else (((s.line "").line (rule 40)).print (.uptime s.queries)).line ""

/-- Executes entry `n` of the history, unless it starts with `.history`. -/
def runEntry (s : Shell) (execute : Shell → String → Shell × Flow) (n : Nat) : Shell × Flow :=
  match History.entryAt? s.history n with
  | none => (s.fail s!"History entry {n} not found", .go)
  | some entry =>
    if History.isRefused entry then
      (s.fail "Refusing to run a .history entry from history", .go)
    else execute s entry

/-- Carries out a command. Entries of the history are left to `execute`. -/
def perform (s : Shell) (execute : Shell → String → Shell × Flow) (files : Files) :
    Command → Shell × Flow
  | .help => (helpLines.foldl line s, .go)
  | .exit => (s.goodbye, .exit)
  | .clear => (s.print (.out "\x1b[2J\x1b[1;1H"), .go)
  | .datasets => (s.showDatasets, .go)
  | .add id kind path => (s.addDataset files id kind path, .go)
  | .remove id => (s.removeDataset id, .go)
  | .timing =>
    let s := { s with timing := !s.timing }
    (s.line ("Query timing: " ++ if s.timing then "ON" else "OFF"), .go)
  | .showHistory => (s.showHistory, .go)
  | .runHistory n => s.runEntry execute n
  | .showMode => (s.info s!"Current output mode: {s.mode.name}", .go)
  | .setMode mode => ({ s with mode }.info s!"Output mode set to: {mode.name}", .go)

/-- Runs a line that is meant as a command. -/
def runCommand (s : Shell) (execute : Shell → String → Shell × Flow) (files : Files)
    (line : String) : Shell × Flow :=
  match Command.ofLine line with
  | .error fault => (s.fail fault.message, .go)
  | .ok none => (s, .go)
  | .ok (some command) => s.perform execute files command

/-- Executes a text that is a command or a query by itself. An entry of the history that it asks for
is executed in its turn, and so on; there is room for `depth` texts one inside the other. -/
def execute (files : Files) : (depth : Nat) → Shell → String → Shell × Flow
  | 0, s, _ => (s, .overflow)
  | depth + 1, s, text =>
    let trimmed := Text.trim text
    if Command.isCommand trimmed then s.runCommand (execute files depth) files trimmed
    else if trimmed = "" then (s, .go)
    else (s.runText trimmed, .go)

/-! ### Lines -/

/-- The shell with an empty buffer. -/
def clearBuffer (s : Shell) : Shell :=
  { s with buffer := "", continuing := false }

/-- The file that a text reads, if it is executed with room for `depth` texts one inside the other:
it adds a dataset, or runs an entry of the history which does. -/
def sourceWithin (history : List String) : (depth : Nat) → String → Option String
  | 0, _ => none
  | depth + 1, text =>
    match Command.ofLine text with
    | .ok (some (.add _ _ path)) => some path
    | .ok (some (.runHistory n)) =>
      (History.entryAt? history n).bind (sourceWithin history depth)
    | _ => none

/-- The file that a line reads, if it is taken as a command. -/
def source? (s : Shell) (line : String) : Option String :=
  sourceWithin s.history (s.history.length + 1) line

/-- Takes a line of a script: a command, a part of a query, or a blank line, which ends a query. -/
def takeLine (s : Shell) (files : Files) (line : String) : Shell × Flow :=
  let trimmed := Text.trim line
  if !s.continuing && Command.isCommand trimmed then
    s.runCommand (execute files s.history.length) files trimmed
  else if trimmed = "" then
    if s.continuing then (s.clearBuffer.runText s.buffer, .go) else (s, .go)
  else
    let text := (if s.continuing then s.buffer ++ "\n" else s.buffer) ++ line
    match Json.read text with
    | .ok query => (s.clearBuffer.runQuery query text, .go)
    | .error .endedEarly => ({ s with buffer := text, continuing := true }, .go)
    | .error .malformed => (s.clearBuffer.fail (invalidJson .malformed), .go)

/-- Takes a text that is a command or a query by itself. There is room enough for as many entries of
the history as it has: one more must be there twice, and then they ask for one another without
end. -/
def takeText (s : Shell) (files : Files) (text : String) : Shell × Flow :=
  execute files (s.history.length + 1) s text

end Shell

end CampusQuery
