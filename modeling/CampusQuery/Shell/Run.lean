import CampusQuery.Shell
/-!
Runs of the shell: the input before it, taken piece by piece.

A script is input line by line without its comments, with a mark at its end; texts among the
arguments are pieces by themselves. Where failures end a run, nothing is taken after the first.
-/

namespace CampusQuery.Shell

open Storage

/-- One piece of input: a line of a script, the end of a script, or a text by itself. -/
inductive Input
  | line (text : String)
  | finish
  | text (text : String)
deriving DecidableEq, Repr

/-- Takes a piece of input. At the end of a script a query that is not complete is ended. -/
def take (s : Shell) (files : Files) : Input → Shell × Flow
  | .line text => s.takeLine files text
  | .finish => if s.continuing then s.takeLine files "" else (s, .go)
  | .text text => s.takeText files text

/-- A line of a script that is of no account. -/
def isComment (line : String) : Bool :=
  ['/', '/'].isPrefixOf (Text.dropBlanks line.toList)

/-- The input that a script is. -/
def scriptInputs (script : String) : List Input :=
  ((Text.lines script).filter (!isComment ·)).map .line ++ [.finish]

/-- Where the input of a run comes from: a script, or texts by themselves. -/
inductive Source
  | script (text : String)
  | texts (texts : List String)
deriving DecidableEq, Repr

/-- The input from a source. -/
def Source.inputs : Source → List Input
  | .script text => scriptInputs text
  | .texts l => l.map .text

/-- A shell with the input before it. -/
structure Run where
  shell : Shell
  inputs : List Input
  /-- Nothing is taken after the first failure. -/
  exitOnError : Bool
  /-- How the last piece of input ended. -/
  flow : Flow

namespace Run

/-- A run of which nothing has been taken. -/
def start (shell : Shell) (inputs : List Input) (exitOnError : Bool) : Run :=
  ⟨shell, inputs, exitOnError, .go⟩

/-- The file that the next piece of input reads, if it reads one. -/
def nextSource? (run : Run) : Option String :=
  match run.inputs.head? with
  | some (.line text) | some (.text text) => run.shell.source? text
  | _ => none

/-- Takes the next piece of input, and drops the rest if the shell is done. -/
def next (files : Directory → Files) (run : Run) : Run :=
  match run.inputs with
  | [] => run
  | input :: rest =>
    let (shell, flow) := run.shell.take (files run.shell.engine.directory) input
    let done := flow != .go || (run.exitOnError && 0 < shell.failures)
    { run with shell, flow, inputs := if done then [] else rest }

/-- Takes up to `count` pieces of input. -/
def advance (files : Directory → Files) : (count : Nat) → Run → Run
  | 0, run => run
  | count + 1, run => advance files count (run.next files)

/-- Takes all input. -/
def all (files : Directory → Files) (run : Run) : Run :=
  run.advance files run.inputs.length

/-- The exit code. Failures count only where they end the run, and running out of room aborts the
program. -/
def exitCode (run : Run) : Nat :=
  if run.flow = .overflow then 134
  else if run.exitOnError && 0 < run.shell.failures then 1
  else 0

end Run

end CampusQuery.Shell
