import CampusQuery.Proofs.Shell.Recall
import CampusQuery.Proofs.Shell.Runs
/-!
Runs that stop at the first failure.

As long as no failure is counted, it makes no difference whether a run would stop at one. The line
with the first failure leaves no part of a query waiting, so that nothing is to be done at the end
of a script that is cut there.
-/

namespace CampusQuery

open Storage

namespace Shell

variable {s : Shell} {files : Directory → Files} {reached : Shell × Flow}

/-! ### Lines of the input -/

namespace Source

/-- The lines of a script, or the texts. -/
def lines : Source → List String
  | .script text => Text.lines text
  | .texts l => l

/-- The piece of input that a line is, unless it is a comment. -/
def piece? : Source → String → Option Input
  | .script _, line => if isComment line then none else some (.line line)
  | .texts _, text => some (.text text)

/-- The input behind the lines. -/
def ending : Source → List Input
  | .script _ => [.finish]
  | .texts _ => []

/-- The input of the first lines, as long as more may follow. -/
def pieces (n : Nat) (source : Source) : List Input :=
  (source.lines.take n).filterMap source.piece?

/-- The source with the first lines only. -/
def cut (n : Nat) : Source → Source
  | .script text => .script (Text.firstLines n text)
  | .texts l => .texts (l.take n)

theorem inputs_eq (source : Source) :
    source.inputs = source.lines.filterMap source.piece? ++ source.ending := by
  cases source with
  | script text =>
    have hlines (l : List String) :
        (l.filter (!isComment ·)).map Input.line = l.filterMap (script text).piece? := by
      induction l with
      | nil => rfl
      | cons line l ih =>
        rw [List.filter_cons, List.filterMap_cons, piece?]
        cases isComment line <;> simp [ih]
    rw [inputs, scriptInputs, hlines]
    rfl
  | texts l =>
    have htexts : (texts l).piece? = fun text => some (.text text) := rfl
    rw [inputs, htexts, List.filterMap_eq_map']
    simp [ending, lines]

theorem lines_cut (n : Nat) (source : Source) : (source.cut n).lines = source.lines.take n := by
  cases source with
  | script text => exact Text.lines_firstLines n text
  | texts l => rfl

theorem inputs_cut (n : Nat) (source : Source) :
    (source.cut n).inputs = source.pieces n ++ source.ending := by
  rw [inputs_eq, lines_cut]
  cases source <;> rfl

theorem exists_inputs_eq (n : Nat) (source : Source) :
    ∃ rest, source.inputs = source.pieces n ++ rest := by
  refine ⟨(source.lines.drop n).filterMap source.piece? ++ source.ending, ?_⟩
  rw [inputs_eq, pieces, ← List.append_assoc, ← List.filterMap_append, List.take_append_drop]

theorem pieces_succ (n : Nat) (source : Source) :
    source.pieces (n + 1) = source.pieces n ++ (source.lines[n]?.bind source.piece?).toList := by
  rw [pieces, pieces, List.take_add_one, List.filterMap_append]
  cases source.lines[n]? with
  | none => rfl
  | some line => cases hpiece : source.piece? line <;> simp [hpiece]

theorem pieces_length (source : Source) :
    source.inputs = source.pieces source.lines.length ++ source.ending := by
  rw [inputs_eq, pieces, List.take_length]

end Source

/-! ### Failures -/

theorem reports_step (exitOnError : Bool) (reached : Shell × Flow) (input : Input) :
    Reports reached.1 (step files exitOnError reached input).1 := by
  rw [step]
  split_ifs
  · exact .silent rfl rfl rfl
  · exact reports_take _ _ input

theorem reports_takeAll (exitOnError : Bool) (reached : Shell × Flow) (inputs : List Input) :
    Reports reached.1 (takeAll files exitOnError reached inputs).1 := by
  induction inputs generalizing reached with
  | nil => exact .silent rfl rfl rfl
  | cons input inputs ih => exact (reports_step exitOnError reached input).trans (ih _)

theorem step_eq_of_no_failure (h : reached.1.failures = 0) (input : Input) :
    step files true reached input = step files false reached input := by
  simp [step, stops, h]

/-- As long as there is no failure, both runs are the same. -/
theorem takeAll_eq_of_no_failure {inputs : List Input}
    (h : (takeAll files false reached inputs).1.failures = 0) :
    takeAll files true reached inputs = takeAll files false reached inputs := by
  induction inputs generalizing reached with
  | nil => rfl
  | cons input inputs ih =>
    have hreports : Reports reached.1 (takeAll files false reached (input :: inputs)).1 :=
      reports_takeAll false reached (input :: inputs)
    obtain ⟨-, more, -, hle, -⟩ := hreports
    have hnone : reached.1.failures = 0 := Nat.le_zero.1 (hle.trans h.le)
    rw [takeAll_cons] at h ⊢
    rw [takeAll_cons, step_eq_of_no_failure hnone, ih h]

/-- A line at which there is a failure leaves no part of a query. -/
theorem continuing_takeLine {files : Files} {line : String}
    (h : s.failures < (s.takeLine files line).1.failures) :
    (s.takeLine files line).1.continuing = false := by
  have htakes := takesLine s files line
  generalize s.takeLine files line = taken at h htakes ⊢
  cases htakes with
  | command hcontinuing =>
    exact (follows_runCommand (follows_execute files _) s files _).continuing.trans hcontinuing
  | passed | held => exact absurd h (Nat.lt_irrefl _)
  | ended => exact (follows_runText s.clearBuffer s.buffer).continuing
  | ran => exact (follows_runQuery s.clearBuffer _ _).continuing
  | refused => exact (follows_fail s.clearBuffer _).continuing

/-- A run that stops at failures is over with the line of the first one, and is then the run that
does not over the lines so far. -/
theorem takeAll_of_first_failure {source : Source} {n : Nat}
    (hbefore : (takeAll files false (s, .go) (source.pieces n)).1.failures = 0)
    (hafter : 0 < (takeAll files false (s, .go) (source.pieces (n + 1))).1.failures) :
    takeAll files true (s, .go) source.inputs =
      takeAll files false (s, .go) (source.cut (n + 1)).inputs := by
  obtain ⟨rest, hrest⟩ := source.exists_inputs_eq (n + 1)
  rw [hrest, takeAll_append, Source.inputs_cut, takeAll_append]
  have hsame := takeAll_eq_of_no_failure hbefore
  have hpieces := source.pieces_succ n
  cases hpiece : source.lines[n]?.bind source.piece? with
  | none =>
    rw [hpiece, Option.toList_none, List.append_nil] at hpieces
    rw [hpieces] at hafter
    omega
  | some input =>
    rw [hpiece, Option.toList_some] at hpieces
    rw [hpieces, takeAll_append, takeAll_cons, takeAll_nil] at hafter ⊢
    rw [takeAll_append, takeAll_cons, takeAll_nil, hsame, step_eq_of_no_failure hbefore]
    generalize takeAll files false (s, .go) (source.pieces n) = before at hbefore hafter ⊢
    have hstops : stops true (step files false before input) = true := by simp [stops, hafter]
    rw [takeAll_of_stops hstops]
    cases source with
    | texts l => rfl
    | script text =>
      rw [Source.ending, takeAll_cons, takeAll_nil]
      have hgoes : stops false before = false := not_stops_of_step_ne fun hsame => by
        rw [hsame] at hafter
        omega
      obtain ⟨line, -, hline⟩ := Option.bind_eq_some_iff.1 hpiece
      rw [Source.piece?] at hline
      split_ifs at hline
      cases hline
      have hidle : (step files false before (.line line)).1.continuing = false := by
        rw [step_of_not_stops hgoes] at hafter ⊢
        exact continuing_takeLine (by rw [hbefore]; exact hafter)
      exact (step_eq_self (take_finish hidle)).symm

/-- Without a failure before its end, the whole input is taken either way. -/
theorem takeAll_of_no_failure {source : Source}
    (h : (takeAll files false (s, .go) (source.pieces source.lines.length)).1.failures = 0) :
    takeAll files true (s, .go) source.inputs = takeAll files false (s, .go) source.inputs := by
  rw [source.pieces_length, takeAll_append, takeAll_append, takeAll_eq_of_no_failure h]
  cases source with
  | texts l => rfl
  | script text =>
    rw [Source.ending, takeAll_cons, takeAll_cons, takeAll_nil, takeAll_nil]
    exact step_eq_of_no_failure h .finish

/-! ### The end of the shell -/

/-- Only commands end the shell. -/
theorem command_of_flow_ne_go {files : Files} {line : String}
    (h : (s.takeLine files line).2 ≠ .go) :
    s.continuing = false ∧ Command.isCommand (Text.trim line) = true := by
  have htakes := takesLine s files line
  generalize s.takeLine files line = taken at h htakes
  cases htakes with
  | command hcontinuing hcommand => exact ⟨hcontinuing, hcommand⟩
  | passed | ended | ran | held | refused => exact absurd rfl h

theorem takeLine_of_flow_ne_go {files : Files} {line : String}
    (h : (s.takeLine files line).2 ≠ .go) :
    s.takeLine files line = s.takeText files line :=
  takeLine_eq_takeText (command_of_flow_ne_go h).1 (command_of_flow_ne_go h).2

/-- Nothing ends the shell at the end of a script. -/
theorem take_finish_flow (s : Shell) (files : Files) : (s.take files .finish).2 = .go := by
  rw [take]
  split_ifs with hcontinuing
  · by_contra hflow
    rw [takeLine_of_flow_ne_go hflow, takeText_blank Text.trim_empty] at hflow
    exact hflow rfl
  · rfl

/-- Running out of room has no effect, and is due to entries in the short form. -/
theorem takeText_of_overflow {files : Files} {text : String}
    (h : (s.takeText files text).2 = .overflow) :
    (s.takeText files text).1 = s ∧ ∃ entry ∈ s.history, History.IsShort entry := by
  have hendless := takeText_eq_overflow_iff.1 h
  refine ⟨by rw [takeText, execute_of_not_executes hendless], ?_⟩
  by_contra hnone
  obtain ⟨path, hpath, -⟩ := History.executes_of_not_isShort fun entry hentry hshort =>
    hnone ⟨entry, History.mem_of_asked? hentry, hshort⟩
  exact hendless path hpath

theorem take_of_overflow {files : Files} {input : Input} (h : (s.take files input).2 = .overflow) :
    (s.take files input).1 = s ∧ ∃ entry ∈ s.history, History.IsShort entry := by
  cases input with
  | line text =>
    have hne : (s.takeLine files text).2 ≠ .go := fun hgo => by cases hgo.symm.trans h
    rw [take, takeLine_of_flow_ne_go hne] at h ⊢
    exact takeText_of_overflow h
  | text text => exact takeText_of_overflow h
  | finish =>
    rw [take_finish_flow] at h
    cases h

/-- The text is the command that ends the shell. -/
def IsExit (text : String) : Prop :=
  Command.isCommand (Text.trim text) = true ∧ Command.ofLine (Text.trim text) = .ok (some .exit)

theorem execute_one_eq_exit_iff {files : Files} {text : String} :
    (execute files 1 s text).2 = .exit ↔ IsExit text := by
  unfold IsExit
  simp only [execute]
  split_ifs with hcommand
  · simp only [hcommand, true_and, runCommand]
    cases Command.ofLine (Text.trim text) with
    | error fault => simp
    | ok command? =>
      cases command? with
      | none => simp
      | some command =>
        cases command with
        | runHistory n =>
          simp only [perform, runEntry]
          cases History.entryAt? s.history n with
          | none => simp
          | some entry =>
            simp only
            split_ifs <;> simp
        | _ => simp [perform]
  · simp [hcommand]
  · simp [hcommand]

/-- Executing the text ends the shell: it is the command for that, or the last entry it executes
is. -/
def ExecutesExit (history : List String) (text : String) : Prop :=
  ∃ path, History.Executes history text path ∧
    IsExit ((text :: path).getLast (List.cons_ne_nil text path))

theorem takeText_eq_exit_iff {files : Files} {text : String} :
    (s.takeText files text).2 = .exit ↔ ExecutesExit s.history text := by
  constructor
  · intro h
    by_cases hends : ∃ path, History.Executes s.history text path
    · obtain ⟨path, hpath⟩ := hends
      refine ⟨path, hpath, ?_⟩
      rw [takeText, (execute_of_executes hpath hpath.length_le).1] at h
      exact execute_one_eq_exit_iff.1 h
    · rw [takeText_eq_overflow_iff.2 fun path hpath => hends ⟨path, hpath⟩] at h
      cases h
  · rintro ⟨path, hpath, hexit⟩
    rw [takeText, (execute_of_executes hpath hpath.length_le).1]
    exact execute_one_eq_exit_iff.2 hexit

theorem ExecutesExit.isCommand {history : List String} {text : String}
    (h : ExecutesExit history text) : Command.isCommand (Text.trim text) = true := by
  obtain ⟨path, hpath, hexit⟩ := h
  cases hpath with
  | done => exact hexit.1
  | next hasked => exact (History.asked?_eq_some_iff.1 hasked).1

/-- The shell ends with this piece of input. Lines of a query are no commands. -/
def EndsWith (s : Shell) : Input → Prop
  | .line text => s.continuing = false ∧ ExecutesExit s.history text
  | .text text => ExecutesExit s.history text
  | .finish => False

theorem take_eq_exit_iff {files : Files} {input : Input} :
    (s.take files input).2 = .exit ↔ s.EndsWith input := by
  cases input with
  | line text =>
    rw [take, EndsWith]
    constructor
    · intro h
      have hne : (s.takeLine files text).2 ≠ .go := by
        rw [h]
        exact Flow.noConfusion
      rw [takeLine_of_flow_ne_go hne] at h
      exact ⟨(command_of_flow_ne_go hne).1, takeText_eq_exit_iff.1 h⟩
    · rintro ⟨hidle, hexit⟩
      rw [takeLine_eq_takeText hidle hexit.isCommand]
      exact takeText_eq_exit_iff.2 hexit
  | text text => exact takeText_eq_exit_iff
  | finish =>
    rw [take_finish_flow]
    exact iff_of_false Flow.noConfusion id

/-- The pieces of input are taken one after the other, up to the first with which the shell ends. -/
inductive Processes (files : Directory → Files) : Shell → List Input → Shell × Flow → Prop
  | nil (s : Shell) : Processes files s [] (s, .go)
  | goesOn {s s' : Shell} {input : Input} {rest : List Input} {reached : Shell × Flow}
      (h : s.take (files s.engine.directory) input = (s', .go)) (hgoes : ¬ s.EndsWith input)
      (hrest : Processes files s' rest reached) : Processes files s (input :: rest) reached
  | ends {s s' : Shell} {input : Input} {rest : List Input}
      (h : s.take (files s.engine.directory) input = (s', .exit)) (hends : s.EndsWith input) :
      Processes files s (input :: rest) (s', .exit)
  | overflows {s s' : Shell} {input : Input} {rest : List Input}
      (h : s.take (files s.engine.directory) input = (s', .overflow)) :
      Processes files s (input :: rest) (s', .overflow)

theorem processes_takeAll (s : Shell) (inputs : List Input) :
    Processes files s inputs (takeAll files false (s, .go) inputs) := by
  induction inputs generalizing s with
  | nil => exact .nil s
  | cons input inputs ih =>
    have hgoes : stops false (s, .go) = false := rfl
    rw [takeAll_cons, step_of_not_stops hgoes]
    have hends : (s.take (files s.engine.directory) input).2 = .exit ↔ s.EndsWith input :=
      take_eq_exit_iff
    cases htake : s.take (files s.engine.directory) input with
    | mk s' flow =>
      rw [htake] at hends
      cases flow with
      | go => exact .goesOn htake (fun h => Flow.noConfusion (hends.2 h)) (ih s')
      | exit =>
        have hstops : stops false (s', .exit) = true := rfl
        rw [takeAll_of_stops hstops]
        exact .ends htake (hends.1 rfl)
      | overflow =>
        have hstops : stops false (s', .overflow) = true := rfl
        rw [takeAll_of_stops hstops]
        exact .overflows htake

/-- A run that stops at failures runs out of room only without one. -/
theorem takeAll_of_overflow {exitOnError : Bool} {inputs : List Input}
    (hreached : reached.2 ≠ .overflow)
    (h : (takeAll files exitOnError reached inputs).2 = .overflow) :
    (∃ entry ∈ reached.1.history, History.IsShort entry) ∧
      (exitOnError = true → (takeAll files exitOnError reached inputs).1.failures = 0) := by
  induction inputs generalizing reached with
  | nil => exact absurd h hreached
  | cons input inputs ih =>
    have hreports : Reports reached.1 (step files exitOnError reached input).1 :=
      reports_step exitOnError reached input
    rw [takeAll_cons] at h ⊢
    by_cases hstep : (step files exitOnError reached input).2 = .overflow
    · have hgoes : stops exitOnError reached = false := not_stops_of_step_ne fun hsame => by
        rw [hsame] at hstep
        exact hreached hstep
      have hstops : stops exitOnError (step files exitOnError reached input) = true := by
        simp [stops, hstep]
      rw [takeAll_of_stops hstops]
      rw [step_of_not_stops hgoes] at hstep ⊢
      obtain ⟨hsame, hshort⟩ := take_of_overflow hstep
      refine ⟨hshort, fun hexit => ?_⟩
      rw [hsame]
      simpa [stops, hexit] using (Bool.or_eq_false_iff.1 hgoes).2
    · rw [← hreports.history]
      exact ih hstep h

/-- From a shell that has printed nothing, there are errors exactly if there are failures. -/
theorem Reports.exists_err_iff {s' : Shell} (h : Reports s s') (hprinted : s.printed = [])
    (hfailures : s.failures = 0) : (∃ text, .err text ∈ s'.printed) ↔ 0 < s'.failures := by
  obtain ⟨-, more, hmore, -, hiff⟩ := h
  rw [hprinted, List.append_nil] at hmore
  rw [hmore, ← hfailures, ← hiff, List.any_eq_true]
  constructor
  · rintro ⟨text, htext⟩
    exact ⟨.err text, htext, rfl⟩
  · rintro ⟨p, hp, herr⟩
    cases p with
    | err text => exact ⟨text, hp⟩
    | _ => cases herr

end Shell

end CampusQuery
