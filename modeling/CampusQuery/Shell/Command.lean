import CampusQuery.Config
import CampusQuery.Display.Mode
import CampusQuery.Text.Blank
/-!
The commands of the shell: lines that start with a point.
-/

namespace CampusQuery.Shell

inductive Command
  | help
  | exit
  | clear
  | datasets
  | add (id : String) (kind : Kind) (path : String)
  | remove (id : String)
  | timing
  | showHistory
  | runHistory (n : Nat)
  | showMode
  | setMode (mode : OutputMode)
deriving DecidableEq, Repr

/-- Why a line is no command. -/
inductive CommandFault
  | addUsage
  | unknownKind (word : String)
  | removeUsage
  | historyNumber (word : String)
  | unknownMode (word : String)
  | unknown (word : String)
deriving DecidableEq, Repr

namespace CommandFault

def message : CommandFault → String
  | addUsage => "Usage: .add <id> <sections|rooms> <records.json>"
  | unknownKind word => s!"Unknown dataset kind: {word} (expected sections or rooms)"
  | removeUsage => "Usage: .remove <id>"
  | historyNumber word => s!"Invalid history number: {word}"
  | unknownMode word => OutputMode.unknownMessage word
  | unknown word => s!"Unknown command: {word}. Type .help for help."

end CommandFault

namespace Command

/-- What the first word of a line asks for. -/
inductive Verb
  | help
  | exit
  | clear
  | datasets
  | add
  | remove
  | timing
  | history
  | mode

/-- The words for the verbs. -/
def Verb.ofWord? (word : String) : Option Verb :=
  if word ∈ [".help", ".h", ".?"] then some .help
  else if word ∈ [".exit", ".quit", ".q"] then some .exit
  else if word ∈ [".clear", ".cls"] then some .clear
  else if word ∈ [".datasets", ".ls"] then some .datasets
  else if word = ".add" then some .add
  else if word ∈ [".remove", ".rm"] then some .remove
  else if word ∈ [".timing", ".time"] then some .timing
  else if word ∈ [".history", ".hist"] then some .history
  else if word = ".mode" then some .mode
  else none

/-- The command of a verb and the words behind it. -/
def ofVerb : Verb → List String → Except CommandFault Command
  | .help, _ => .ok help
  | .exit, _ => .ok exit
  | .clear, _ => .ok clear
  | .datasets, _ => .ok datasets
  | .add, [id, kind, path] =>
    match Kind.ofName? kind with
    | some kind => .ok (add id kind path)
    | none => .error (.unknownKind kind)
  | .add, _ => .error .addUsage
  | .remove, [id] => .ok (remove id)
  | .remove, _ => .error .removeUsage
  | .timing, _ => .ok timing
  | .history, [] => .ok showHistory
  | .history, word :: _ =>
    match Settings.natOfText? word with
    | some n => .ok (runHistory n)
    | none => .error (.historyNumber word)
  | .mode, [] => .ok showMode
  | .mode, word :: _ =>
    match OutputMode.ofName? word with
    | some mode => .ok (setMode mode)
    | none => .error (.unknownMode word)

/-- The command of a line. A line without words has none. -/
def ofLine (line : String) : Except CommandFault (Option Command) :=
  match Text.words line with
  | [] => .ok none
  | word :: arguments =>
    match Verb.ofWord? word with
    | some verb => (ofVerb verb arguments).map some
    | none => .error (.unknown word)

/-- A line is meant as a command. -/
def isCommand (line : String) : Bool :=
  line.toList.head? == some '.'

end Command

example : ([".ls", ".add a rooms f", ".history +1", ".mode CSV"].map fun line =>
    (Command.ofLine line).toOption) =
    [some (some .datasets), some (some (.add "a" .rooms "f")), some (some (.runHistory 1)),
      some (some (.setMode .csv))] := by decide +kernel

end CampusQuery.Shell
