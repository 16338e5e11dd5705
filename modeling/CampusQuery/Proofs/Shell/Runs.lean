import CampusQuery.Proofs.Json.Prefixes
import CampusQuery.Proofs.Shell.Effects
/-!
Runs of the shell, as folds over their input.

Once a piece of input has ended the run, the pieces behind it change nothing. A run over some input
and then more is so the run over the more, from where the first one ended.
-/

namespace CampusQuery.Shell

open Storage

variable {s : Shell} {exitOnError : Bool} {files : Directory → Files}

/-- No line of a query is waiting for the rest of it. -/
structure Idle (s : Shell) : Prop where
  continuing : s.continuing = false
  buffer : s.buffer = ""

theorem Idle.clearBuffer_eq (h : s.Idle) : s.clearBuffer = s := by
  obtain ⟨hcontinuing, hbuffer⟩ := h
  rw [clearBuffer, ← hcontinuing, ← hbuffer]

theorem Follows.idle {s' : Shell} (h : Follows s s') (hidle : s.Idle) : s'.Idle :=
  ⟨h.continuing.trans hidle.continuing, h.buffer.trans hidle.buffer⟩

/-! ### Pieces of input -/

theorem isComment_eq_false {line : String} (h : (Text.dropBlanks line.toList).head? ≠ some '/') :
    isComment line = false := by
  rw [isComment, Bool.eq_false_iff, ne_eq, List.isPrefixOf_iff_prefix]
  rintro ⟨rest, hcomment⟩
  rw [← hcomment] at h
  exact h rfl

/-- Lines of a value are not taken for something else. -/
theorem not_command_of_whole {line : String} (h : Json.Whole (Json.tokensOf line)) :
    Command.isCommand (Text.trim line) = false ∧ isComment line = false := by
  have hpoint : (Text.dropBlanks line.toList).head? ≠ some '.' := Json.head?_dropBlanks_ne h rfl
  have hstroke : (Text.dropBlanks line.toList).head? ≠ some '/' := Json.head?_dropBlanks_ne h rfl
  refine ⟨?_, isComment_eq_false hstroke⟩
  rw [Command.isCommand, Text.head?_trim]
  exact beq_eq_false_iff_ne.2 hpoint

theorem takeLine_blank (hidle : s.Idle) {line : String} (hline : Text.trim line = "")
    (files : Files) : s.takeLine files line = (s, .go) := by
  simp [takeLine, hidle.continuing, hline, Command.isCommand]

theorem takeText_blank {text : String} (htext : Text.trim text = "") (files : Files) :
    s.takeText files text = (s, .go) := by
  simp [takeText, execute, htext, Command.isCommand]

theorem take_finish (h : s.continuing = false) (files : Files) :
    s.take files .finish = (s, .go) := by
  simp [take, h]

/-- The text that a line makes with the lines before it. -/
def textWith (s : Shell) (line : String) : String :=
  (if s.continuing then s.buffer ++ "\n" else s.buffer) ++ line

/-- The line is a part of a query: it is not blank, and no command either. -/
def IsQueryLine (s : Shell) (line : String) : Prop :=
  Text.trim line ≠ "" ∧ (s.continuing = false → Command.isCommand (Text.trim line) = false)

/-- What a line of a script comes to. -/
inductive TakesLine (s : Shell) (files : Files) (line : String) : Shell × Flow → Prop
  | command (hcontinuing : s.continuing = false)
      (hcommand : Command.isCommand (Text.trim line) = true) :
      TakesLine s files line (s.runCommand (execute files s.history.length) files (Text.trim line))
  | passed (hcontinuing : s.continuing = false) (hblank : Text.trim line = "") :
      TakesLine s files line (s, .go)
  | ended (hcontinuing : s.continuing = true) (hblank : Text.trim line = "") :
      TakesLine s files line (s.clearBuffer.runText s.buffer, .go)
  | ran (hline : s.IsQueryLine line) {query : Json}
      (hread : Json.read (s.textWith line) = .ok query) :
      TakesLine s files line (s.clearBuffer.runQuery query (s.textWith line), .go)
  | held (hline : s.IsQueryLine line) (hread : Json.read (s.textWith line) = .error .endedEarly) :
      TakesLine s files line ({ s with buffer := s.textWith line, continuing := true }, .go)
  | refused (hline : s.IsQueryLine line)
      (hread : Json.read (s.textWith line) = .error .malformed) :
      TakesLine s files line (s.clearBuffer.fail (invalidJson .malformed), .go)

theorem takeLine_of_isQueryLine {line : String} (h : s.IsQueryLine line) (files : Files) :
    s.takeLine files line =
      match Json.read (s.textWith line) with
      | .ok query => (s.clearBuffer.runQuery query (s.textWith line), .go)
      | .error .endedEarly => ({ s with buffer := s.textWith line, continuing := true }, .go)
      | .error .malformed => (s.clearBuffer.fail (invalidJson .malformed), .go) := by
  have hcommand : (!s.continuing && Command.isCommand (Text.trim line)) = false := by
    cases hcontinuing : s.continuing with
    | false => simpa using h.2 hcontinuing
    | true => rfl
  unfold takeLine
  dsimp only
  rw [hcommand, if_neg Bool.false_ne_true, if_neg h.1]
  rfl

theorem takesLine (s : Shell) (files : Files) (line : String) :
    TakesLine s files line (s.takeLine files line) := by
  by_cases hcommand : s.continuing = false ∧ Command.isCommand (Text.trim line) = true
  · have hif : (!s.continuing && Command.isCommand (Text.trim line)) = true := by simp [hcommand]
    unfold takeLine
    dsimp only
    rw [if_pos hif]
    exact .command hcommand.1 hcommand.2
  · by_cases hblank : Text.trim line = ""
    · cases hcontinuing : s.continuing with
      | false =>
        simpa [takeLine, hcontinuing, hblank, Command.isCommand] using
          TakesLine.passed hcontinuing hblank
      | true => simpa [takeLine, hcontinuing, hblank] using TakesLine.ended hcontinuing hblank
    · have hline : s.IsQueryLine line :=
        ⟨hblank, fun hcontinuing => Bool.eq_false_iff.2 fun h => hcommand ⟨hcontinuing, h⟩⟩
      rw [takeLine_of_isQueryLine hline]
      cases hread : Json.read (s.textWith line) with
      | ok query => exact .ran hline hread
      | error error =>
        cases error with
        | endedEarly => exact .held hline hread
        | malformed => exact .refused hline hread

theorem reports_takeLine (s : Shell) (files : Files) (line : String) :
    Reports s (s.takeLine files line).1 := by
  have hclear : Reports s s.clearBuffer := .silent rfl rfl rfl
  have htakes := takesLine s files line
  generalize s.takeLine files line = taken at htakes ⊢
  cases htakes with
  | command => exact (follows_runCommand (follows_execute files _) s files _).toReports
  | passed => exact (Follows.refl s).toReports
  | ended => exact hclear.trans (follows_runText s.clearBuffer s.buffer).toReports
  | ran => exact hclear.trans (follows_runQuery s.clearBuffer _ _).toReports
  | held => exact .silent rfl rfl rfl
  | refused => exact hclear.trans (follows_fail s.clearBuffer _).toReports

/-- Whatever is taken, failures are counted exactly if errors are printed. -/
theorem reports_take (s : Shell) (files : Files) (input : Input) :
    Reports s (s.take files input).1 := by
  cases input with
  | line text => exact reports_takeLine s files text
  | finish =>
    rw [take]
    split_ifs
    · exact reports_takeLine s files ""
    · exact (Follows.refl s).toReports
  | text text => exact (follows_takeText files s text).toReports

/-! ### Whole runs -/

/-- The run takes nothing after this. -/
def stops (exitOnError : Bool) (reached : Shell × Flow) : Bool :=
  reached.2 != .go || (exitOnError && 0 < reached.1.failures)

/-- What a piece of input adds to a run. -/
def step (files : Directory → Files) (exitOnError : Bool) (reached : Shell × Flow) (input : Input) :
    Shell × Flow :=
  if stops exitOnError reached then reached
  else reached.1.take (files reached.1.engine.directory) input

/-- The shell after all input, and how it went on. -/
def takeAll (files : Directory → Files) (exitOnError : Bool) (reached : Shell × Flow)
    (inputs : List Input) : Shell × Flow :=
  inputs.foldl (step files exitOnError) reached

theorem stops_go : stops exitOnError (s, .go) = (exitOnError && decide (0 < s.failures)) := by
  simp [stops]

theorem flow_eq_go {reached : Shell × Flow} (h : stops exitOnError reached = false) :
    reached.2 = .go := by
  simp only [stops, Bool.or_eq_false_iff, bne_eq_false_iff_eq] at h
  exact h.1

theorem takeAll_nil (reached : Shell × Flow) : takeAll files exitOnError reached [] = reached :=
  rfl

theorem takeAll_cons (reached : Shell × Flow) (input : Input) (inputs : List Input) :
    takeAll files exitOnError reached (input :: inputs) =
      takeAll files exitOnError (step files exitOnError reached input) inputs :=
  rfl

theorem takeAll_append (reached : Shell × Flow) (front back : List Input) :
    takeAll files exitOnError reached (front ++ back) =
      takeAll files exitOnError (takeAll files exitOnError reached front) back :=
  List.foldl_append

theorem takeAll_of_stops {reached : Shell × Flow} (h : stops exitOnError reached = true)
    (inputs : List Input) : takeAll files exitOnError reached inputs = reached := by
  induction inputs with
  | nil => rfl
  | cons input inputs ih => rw [takeAll_cons, step, if_pos h, ih]

theorem step_of_not_stops {reached : Shell × Flow} (h : stops exitOnError reached = false)
    (input : Input) : step files exitOnError reached input =
      reached.1.take (files reached.1.engine.directory) input := by
  rw [step, if_neg (by simp [h])]

/-- A piece of input that has an effect is taken. -/
theorem not_stops_of_step_ne {reached : Shell × Flow} {input : Input}
    (h : step files exitOnError reached input ≠ reached) : stops exitOnError reached = false := by
  by_contra hstops
  exact h (if_pos (by simpa using hstops))

/-- Input that does nothing to the shell does nothing to the run. -/
theorem step_eq_self {reached : Shell × Flow} {input : Input}
    (h : ∀ files, reached.1.take files input = (reached.1, .go)) :
    step files exitOnError reached input = reached := by
  by_contra hne
  have hgoes := not_stops_of_step_ne hne
  refine hne ?_
  rw [step_of_not_stops hgoes, h, ← flow_eq_go hgoes]

namespace Run

theorem advance_of_inputs_eq_nil {run : Run} (h : run.inputs = []) (count : Nat) :
    run.advance files count = run := by
  induction count with
  | zero => rfl
  | succ count ih =>
    have hnext : run.next files = run := by simp [next, h]
    rw [advance, hnext, ih]

/-- A run that does not stop before its start takes its input one piece after the other. -/
theorem all_start (hstart : stops exitOnError (s, .go) = false) (inputs : List Input) :
    (start s inputs exitOnError).all files =
      let reached := takeAll files exitOnError (s, .go) inputs
      ⟨reached.1, [], exitOnError, reached.2⟩ := by
  unfold all
  induction inputs generalizing s with
  | nil => rfl
  | cons input inputs ih =>
    have hnext : (start s (input :: inputs) exitOnError).next files =
        let reached := s.take (files s.engine.directory) input
        ⟨reached.1, if stops exitOnError reached then [] else inputs, exitOnError, reached.2⟩ := rfl
    rw [takeAll_cons, step_of_not_stops hstart]
    change ((start s (input :: inputs) exitOnError).next files).advance files inputs.length = _
    rw [hnext]
    generalize s.take (files s.engine.directory) input = reached
    obtain ⟨s', flow⟩ := reached
    cases hstops : stops exitOnError (s', flow) with
    | true =>
      rw [takeAll_of_stops hstops]
      simp only [hstops]
      exact advance_of_inputs_eq_nil rfl _
    | false =>
      obtain rfl : flow = .go := flow_eq_go hstops
      simp only [hstops]
      exact ih hstops

end Run

end CampusQuery.Shell
