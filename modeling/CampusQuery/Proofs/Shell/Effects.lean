import CampusQuery.Proofs.Answer.Typing
import CampusQuery.Proofs.Outcome
import CampusQuery.Shell.Run
/-!
What the operations of the shell leave behind.

An operation counts a failure exactly if there is an error among what it prints. The lines of a
query that is not complete are left alone by all that is executed: only what takes lines has to do
with them.
-/

namespace CampusQuery

namespace Printed

/-- The text is an error, or a part of one. -/
def isErr : Printed → Bool
  | err _ => true
  | _ => false

end Printed

namespace Shell

variable {s s' s'' : Shell}

/-! ### Printing -/

/-- All that happens to the shell is that texts of a certain kind are printed. -/
def Prints (P : Printed → Prop) (s s' : Shell) : Prop :=
  ∃ more, (∀ p ∈ more, P p) ∧ s' = { s with printed := more ++ s.printed }

namespace Prints

variable {P : Printed → Prop}

theorem refl (s : Shell) : Prints P s s :=
  ⟨[], nofun, rfl⟩

theorem trans (h : Prints P s s') (h' : Prints P s' s'') : Prints P s s'' := by
  obtain ⟨more, hmore, rfl⟩ := h
  obtain ⟨further, hfurther, rfl⟩ := h'
  refine ⟨further ++ more, List.forall_mem_append.2 ⟨hfurther, hmore⟩, ?_⟩
  rw [List.append_assoc]

theorem print (s : Shell) {p : Printed} (hp : P p) : Prints P s (s.print p) :=
  ⟨[p], by simpa using hp, rfl⟩

theorem foldl {α : Type} {f : Shell → α → Shell} (hf : ∀ s a, Prints P s (f s a)) (l : List α)
    (s : Shell) : Prints P s (l.foldl f s) := by
  induction l generalizing s with
  | nil => exact refl s
  | cons a l ih => exact (hf s a).trans (ih (f s a))

theorem ite {p : Prop} [Decidable p] (h : Prints P s s') (h' : Prints P s s'') :
    Prints P s (if p then s' else s'') :=
  iteInduction (fun _ => h) fun _ => h'

end Prints

/-- Nothing but texts on the standard output is printed. -/
def Shows : Shell → Shell → Prop :=
  Prints fun p => p.isErr = false

theorem shows_line (s : Shell) (text : String) : Shows s (s.line text) :=
  Prints.print s rfl

theorem shows_time (s : Shell) : Shows s s.time :=
  Prints.ite (Prints.print s rfl) (Prints.refl s)

/-- The rows of an answer have the same columns. -/
theorem exists_keys {e : Engine} {query : Json} {rows : List OutputRow}
    (h : e.query query = .ok rows) : ∃ keys, ∀ row ∈ rows, row.map Prod.fst = keys := by
  obtain ⟨q, data, -, -, -, hanswer⟩ := Engine.query_eq_ok h
  obtain ⟨narrow, -, rfl⟩ := Query.execute_eq_ok hanswer
  refine ⟨(q.options.columns.map Column.key).eraseDups, ?_⟩
  intro row hrow
  obtain ⟨row, -, rfl⟩ := List.mem_map.1 hrow
  exact Row.keys_project q.options.columns row

/-- So there is a text for them, a line for each. -/
theorem csvText?_ne_none {e : Engine} {query : Json} {rows : List OutputRow}
    (h : e.query query = .ok rows) : Display.csvText? rows ≠ none := by
  obtain ⟨keys, hkeys⟩ := exists_keys h
  have hlength : ∀ row ∈ rows.map Display.cellTexts, row.length = (Display.header rows).length := by
    cases rows with
    | nil => simp
    | cons first rows =>
      have hheader : Display.header (first :: rows) = keys := hkeys first List.mem_cons_self
      simp only [List.forall_mem_map, hheader]
      intro row hrow
      rw [← hkeys row hrow]
      simp [Display.cellTexts]
  unfold Display.csvText? Display.csvTextOf?
  split_ifs with hempty hall
  · simp
  · simp
  · simp only [List.all_eq_true, beq_iff_eq] at hall
    exact absurd hlength hall

theorem shows_showRows {rows : List OutputRow} (h : Display.csvText? rows ≠ none) (s : Shell) :
    Shows s (s.showRows rows) := by
  unfold showRows
  refine Prints.trans ?_ (shows_time _)
  cases s.mode with
  | table => exact (shows_line _ _).trans (shows_line _ _)
  | json => exact shows_line _ _
  | csv =>
    obtain ⟨text, htext⟩ := Option.ne_none_iff_exists'.1 h
    simp only [htext]
    exact Prints.print s rfl

theorem shows_showDatasets (s : Shell) : Shows s s.showDatasets := by
  unfold showDatasets
  simp only
  cases s.mode with
  | json => exact shows_line _ _
  | csv =>
    simp only
    split
    · exact Prints.print s rfl
    · exact Prints.refl s
  | table => exact (shows_line _ _).ite (shows_line _ _)

theorem shows_showHistory (s : Shell) : Shows s s.showHistory := by
  refine (shows_line _ _).ite ?_
  have htitle := ((shows_line s "").trans (shows_line _ "History:")).trans (shows_line _ (rule 60))
  have hentries := htitle.trans (Prints.foldl (fun s (entry : String × Nat) => shows_line s
    s!"{padLeft 4 (toString (entry.2 + 1))} │ {History.oneLine entry.1 60}")
    (s.history.zipIdx.drop (s.history.length - History.shown)) _)
  exact (hentries.trans (shows_line _ (rule 60))).trans
    (shows_line _ "Use .history <n> to run entry n")

theorem shows_goodbye (s : Shell) : Shows s s.goodbye :=
  (Prints.refl s).ite <| (((shows_line s "").trans (shows_line _ (rule 40))).trans
    (Prints.print _ rfl)).trans (shows_line _ "")

/-- The lines of a query are all that is printed of it. -/
theorem prints_echo (s : Shell) (text : String) : Prints (fun _ => True) s (s.echo text) := by
  have htitle : Prints (fun _ => True) s (s.print (.err "Query:\n")) := Prints.print s trivial
  unfold echo
  dsimp only
  refine Prints.ite (Prints.refl s) (htitle.trans ?_)
  exact Prints.foldl (fun s _ => Prints.print s trivial) _ _

/-! ### Failures -/

/-- Further text is printed, and failures are counted exactly if there are errors in it. -/
structure Reports (s s' : Shell) : Prop where
  history : s'.history = s.history
  counted : ∃ more, s'.printed = more ++ s.printed ∧ s.failures ≤ s'.failures ∧
    (more.any Printed.isErr = true ↔ s.failures < s'.failures)

namespace Reports

/-- Nothing is printed, and no failure counted. -/
theorem silent (hhistory : s'.history = s.history) (hprinted : s'.printed = s.printed)
    (hfailures : s'.failures = s.failures) : Reports s s' :=
  ⟨hhistory, [], hprinted, hfailures.ge, by simp [hfailures]⟩

theorem trans (h : Reports s s') (h' : Reports s' s'') : Reports s s'' := by
  obtain ⟨hhistory, more, hprinted, hle, hiff⟩ := h
  obtain ⟨hhistory', further, hprinted', hle', hiff'⟩ := h'
  refine ⟨hhistory'.trans hhistory, further ++ more, ?_, hle.trans hle', ?_⟩
  · rw [hprinted', hprinted, List.append_assoc]
  · rw [List.any_append, Bool.or_eq_true, hiff, hiff']
    omega

end Reports

/-- What happens when something is executed: the lines of a query that is not complete stay. -/
structure Follows (s s' : Shell) : Prop extends Reports s s' where
  buffer : s'.buffer = s.buffer
  continuing : s'.continuing = s.continuing

namespace Follows

theorem refl (s : Shell) : Follows s s :=
  ⟨.silent rfl rfl rfl, rfl, rfl⟩

theorem trans (h : Follows s s') (h' : Follows s' s'') : Follows s s'' :=
  ⟨h.toReports.trans h'.toReports, h'.buffer.trans h.buffer, h'.continuing.trans h.continuing⟩

end Follows

theorem Shows.follows (h : Shows s s') : Follows s s' := by
  obtain ⟨more, hmore, rfl⟩ := h
  refine ⟨⟨rfl, more, rfl, Nat.le_refl _, ?_⟩, rfl, rfl⟩
  simp only [Nat.lt_irrefl, iff_false, List.any_eq_true, not_exists, not_and]
  intro p hp
  simp [hmore p hp]

theorem follows_fail (s : Shell) (text : String) : Follows s (s.fail text) :=
  ⟨⟨rfl, [.err ("✗ " ++ text ++ "\n")], rfl, Nat.le_succ _, by simp [Printed.isErr, fail]⟩, rfl, rfl⟩

theorem follows_echo {failed : Shell} (h : Follows s failed) (hfailed : s.failures < failed.failures)
    (text : String) : Follows s (failed.echo text) := by
  obtain ⟨further, -, hecho⟩ := prints_echo failed text
  obtain ⟨more, hprinted, hle, hiff⟩ := h.counted
  rw [hecho]
  refine ⟨⟨h.history, further ++ more, ?_, hle, ?_⟩, h.buffer, h.continuing⟩
  · simp [hprinted]
  · simp [hiff, hfailed]

theorem follows_runQuery (s : Shell) (query : Json) (text : String) :
    Follows s (s.runQuery query text) := by
  have hcounted : Follows s { s with queries := s.queries + 1 } := ⟨.silent rfl rfl rfl, rfl, rfl⟩
  unfold runQuery
  simp only
  cases hquery : s.engine.query query with
  | ok rows => exact hcounted.trans (shows_showRows (csvText?_ne_none hquery) _).follows
  | error failure =>
    have hfailed := follows_fail { s with queries := s.queries + 1 } (tagged failure)
    exact hcounted.trans (follows_echo hfailed (Nat.lt_succ_self _) text)

/-- A query that has failed counts as one. -/
theorem runQuery_eq (s : Shell) (query : Json) (text : String) :
    ∃ more, s.runQuery query text =
      { s with
        queries := s.queries + 1
        failures := s.failures + if (s.engine.query query).isOk then 0 else 1
        printed := more ++ s.printed } := by
  cases hquery : s.engine.query query with
  | ok rows =>
    obtain ⟨more, -, hrows⟩ :=
      shows_showRows (csvText?_ne_none hquery) { s with queries := s.queries + 1 }
    refine ⟨more, ?_⟩
    rw [runQuery]
    simp only [hquery]
    exact hrows
  | error failure =>
    obtain ⟨more, -, hecho⟩ :=
      prints_echo ({ s with queries := s.queries + 1 }.fail (tagged failure)) text
    refine ⟨more ++ [.err ("✗ " ++ tagged failure ++ "\n")], ?_⟩
    rw [runQuery]
    simp only [hquery, List.append_assoc]
    exact hecho

theorem follows_runText (s : Shell) (text : String) : Follows s (s.runText text) := by
  unfold runText
  cases Json.read text with
  | ok query => exact follows_runQuery s query text
  | error error => exact follows_fail s _

/-! ### Commands -/

theorem follows_addDataset (s : Shell) (files : Files) (id : String) (kind : Kind) (path : String) :
    Follows s (s.addDataset files id kind path) := by
  unfold addDataset
  cases loadRecords files path with
  | error text => exact follows_fail s text
  | ok records =>
    simp only
    cases s.engine.add id kind records with
    | error failure => exact follows_fail s _
    | ok added =>
      have hadded : Follows s { s with engine := added.2 } := ⟨.silent rfl rfl rfl, rfl, rfl⟩
      have hshows := shows_line { s with engine := added.2 } ("✓ " ++ s!"Added dataset '{id}'")
      have hids := hshows.trans (shows_line _ ("ℹ " ++ ("Datasets: " ++ ", ".intercalate added.1)))
      exact hadded.trans (Shows.follows (hids.trans (shows_time _)))

theorem follows_removeDataset (s : Shell) (id : String) : Follows s (s.removeDataset id) := by
  unfold removeDataset
  cases s.engine.remove id with
  | error failure => exact follows_fail s _
  | ok removed =>
    have hremoved : Follows s { s with engine := removed.2 } := ⟨.silent rfl rfl rfl, rfl, rfl⟩
    exact hremoved.trans (shows_line _ _).follows

variable {next : Shell → String → Shell × Flow}

theorem follows_runEntry (hnext : ∀ s text, Follows s (next s text).1) (s : Shell) (n : Nat) :
    Follows s (s.runEntry next n).1 := by
  unfold runEntry
  cases History.entryAt? s.history n with
  | none => exact follows_fail s _
  | some entry =>
    simp only
    split_ifs
    · exact follows_fail s _
    · exact hnext s entry

theorem follows_perform (hnext : ∀ s text, Follows s (next s text).1) (s : Shell)
    (files : Files) (command : Command) : Follows s (s.perform next files command).1 := by
  cases command with
  | help => exact Shows.follows (Prints.foldl shows_line helpLines s)
  | exit => exact (shows_goodbye s).follows
  | clear => exact Shows.follows (Prints.print s rfl)
  | datasets => exact (shows_showDatasets s).follows
  | add id kind path => exact follows_addDataset s files id kind path
  | remove id => exact follows_removeDataset s id
  | timing =>
    have hset : Follows s { s with timing := !s.timing } := ⟨.silent rfl rfl rfl, rfl, rfl⟩
    exact hset.trans (shows_line _ _).follows
  | showHistory => exact (shows_showHistory s).follows
  | runHistory n => exact follows_runEntry hnext s n
  | showMode => exact (shows_line s _).follows
  | setMode mode =>
    have hset : Follows s { s with mode } := ⟨.silent rfl rfl rfl, rfl, rfl⟩
    exact hset.trans (shows_line _ _).follows

theorem follows_runCommand (hnext : ∀ s text, Follows s (next s text).1) (s : Shell)
    (files : Files) (line : String) : Follows s (s.runCommand next files line).1 := by
  unfold runCommand
  cases Command.ofLine line with
  | error fault => exact follows_fail s _
  | ok command? =>
    cases command? with
    | none => exact .refl s
    | some command => exact follows_perform hnext s files command

theorem follows_execute (files : Files) (depth : Nat) (s : Shell) (text : String) :
    Follows s (execute files depth s text).1 := by
  induction depth generalizing s text with
  | zero => exact .refl s
  | succ depth ih =>
    simp only [Shell.execute]
    split_ifs
    · exact follows_runCommand ih s files (Text.trim text)
    · exact Follows.refl s
    · dsimp only
      exact follows_runText s (Text.trim text)

theorem follows_takeText (files : Files) (s : Shell) (text : String) :
    Follows s (s.takeText files text).1 :=
  follows_execute files _ s text

end Shell

end CampusQuery
