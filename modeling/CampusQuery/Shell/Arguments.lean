import CampusQuery.Display.Mode
/-!
The arguments of the program.

Options have a long name, and some a short one; a value may be attached to the name or follow it.
Short flags may stand together. Each option is given at most once, except for the commands to run.
-/

namespace CampusQuery.Shell

structure Arguments where
  config : Option String
  dataDirectory : Option String
  commands : List String
  script : Option String
  quiet : Bool
  format : Option OutputMode
  exitOnError : Bool
  noHistory : Bool
deriving DecidableEq, Repr, Inhabited

/-- What the arguments ask for. -/
inductive Request
  | run (arguments : Arguments)
  | version
  | help
  | misused
deriving DecidableEq, Repr

namespace Arguments

def none : Arguments :=
  ⟨.none, .none, [], .none, false, .none, false, false⟩

/-- The options that take a value. -/
inductive Setting
  | config
  | dataDirectory
  | command
  | script
  | format
deriving DecidableEq, Repr

/-- The options that take none. -/
inductive Switch
  | quiet
  | exitOnError
  | noHistory
  | version
  | help
deriving DecidableEq, Repr

/-- The option of a long name. -/
def ofLong? (name : String) : Option (Setting ⊕ Switch) :=
  match name with
  | "config" => some (.inl .config)
  | "data-dir" => some (.inl .dataDirectory)
  | "command" => some (.inl .command)
  | "file" => some (.inl .script)
  | "format" => some (.inl .format)
  | "quiet" => some (.inr .quiet)
  | "exit-on-error" => some (.inr .exitOnError)
  | "no-history" => some (.inr .noHistory)
  | "version" => some (.inr .version)
  | "help" => some (.inr .help)
  | _ => .none

/-- The option of a letter. -/
def ofShort? (letter : Char) : Option (Setting ⊕ Switch) :=
  match letter with
  | 'c' => some (.inl .command)
  | 'f' => some (.inl .script)
  | 'q' => some (.inr .quiet)
  | 'V' => some (.inr .version)
  | 'h' => some (.inr .help)
  | _ => .none

/-- Gives an option its value. Paths may not be empty, and forms of output must exist. -/
def assign (a : Arguments) (setting : Setting) (value : String) : Except Request Arguments :=
  let path (old : Option String) (new : Arguments) : Except Request Arguments :=
    if old.isSome ∨ value = "" then .error .misused else .ok new
  match setting with
  | .config => path a.config { a with config := value }
  | .dataDirectory => path a.dataDirectory { a with dataDirectory := value }
  | .script => path a.script { a with script := value }
  | .command => .ok { a with commands := a.commands ++ [value] }
  | .format =>
    match OutputMode.ofName? value with
    | some mode => if a.format.isSome then .error .misused else .ok { a with format := mode }
    | .none => .error .misused

/-- Turns a switch on. -/
def turnOn (a : Arguments) (switch : Switch) : Except Request Arguments :=
  let flag (old : Bool) (new : Arguments) : Except Request Arguments :=
    if old then .error .misused else .ok new
  match switch with
  | .quiet => flag a.quiet { a with quiet := true }
  | .exitOnError => flag a.exitOnError { a with exitOnError := true }
  | .noHistory => flag a.noHistory { a with noHistory := true }
  | .version => .error .version
  | .help => .error .help

/-- Where in the arguments the reader stands: an option may wait for its value. -/
structure Progress where
  arguments : Arguments
  waiting : Option Setting
  onlyValues : Bool

/-- The letters of an argument such as `-qf`: a value takes all that is behind its letter. -/
def takeLetters (a : Arguments) : List Char → Except Request (Arguments × Option Setting)
  | [] => .ok (a, .none)
  | letter :: rest =>
    match ofShort? letter with
    | .none => .error .misused
    | some (.inr switch) => do takeLetters (← a.turnOn switch) rest
    | some (.inl setting) =>
      match rest with
      | [] => .ok (a, some setting)
      | '=' :: value => return (← a.assign setting (.ofList value), .none)
      | value => return (← a.assign setting (.ofList value), .none)

/-- A long option, with a value if one is attached. -/
def takeLong (a : Arguments) (body : List Char) : Except Request (Arguments × Option Setting) :=
  let name := body.takeWhile (· ≠ '=')
  let value := (body.drop name.length).tail?
  match ofLong? (.ofList name), value with
  | .none, _ => .error .misused
  | some (.inl setting), .none => .ok (a, some setting)
  | some (.inl setting), some value => return (← a.assign setting (.ofList value), .none)
  | some (.inr switch), .none => return (← a.turnOn switch, .none)
  | some (.inr _), some _ => .error .misused

/-- The next argument. -/
def take (p : Progress) (argument : String) : Except Request Progress := do
  let option (result : Except Request (Arguments × Option Setting)) : Except Request Progress := do
    if p.waiting.isSome then throw .misused
    let (arguments, waiting) ← result
    return { p with arguments, waiting }
  match p.onlyValues, argument.toList with
  | true, _ => throw .misused
  | false, ['-', '-'] => return { p with onlyValues := true }
  | false, '-' :: '-' :: body => option (takeLong p.arguments body)
  | false, '-' :: letter :: letters => option (takeLetters p.arguments (letter :: letters))
  | false, _ =>
    match p.waiting with
    | some setting =>
      return { p with arguments := ← p.arguments.assign setting argument, waiting := .none }
    | .none => throw .misused

/-- What a list of arguments asks for. -/
def request (arguments : List String) : Request :=
  match arguments.foldlM take ⟨none, .none, false⟩ with
  | .error request => request
  | .ok p => if p.waiting.isSome then .misused else .run p.arguments

example : request ["-qf", "a", "--data-dir=d", "-c.ls", "-c", ""] =
    .run { none with
      quiet := true, script := some "a", dataDirectory := some "d", commands := [".ls", ""] } := by
  decide +kernel

example : [["--nope"], ["-q", "-q"], ["x"], ["-c"], ["-c", "-q"], ["--format", "xml"],
    ["--config", ""], ["--quiet=1"]].map request = List.replicate 8 .misused := by decide +kernel

example : request ["-q", "--version", "--nope"] = .version := by decide +kernel

end Arguments

end CampusQuery.Shell
