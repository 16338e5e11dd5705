import CampusQuery.Program
import CampusQuery.Proofs.Shell.Stopping
/-!
Sessions of the program that stop at the first failure, and those that do not.
-/

namespace CampusQuery

open Storage

namespace Program

open Shell

namespace Session

variable {session : Session}

/-- The files that are read outside the data directory. -/
def files (session : Session) : Directory → Files :=
  fun directory => (session.diskWith directory).readText

/-- The session with the first lines of its input only. -/
def cut (session : Session) (n : Nat) : Session :=
  { session with source := session.source.cut n }

/-- A failure is reported within the first `n` lines, where failures do not end the run. -/
def FailsWithin (session : Session) (n : Nat) : Prop :=
  ∃ text, .err text ∈
    ((Run.start session.shell (session.source.pieces n) false).all session.files).shell.printed

/-- Line `n` is the first at which a failure is reported. -/
def FailsFirstAt (session : Session) (n : Nat) : Prop :=
  session.FailsWithin n ∧ ∀ m < n, ¬ session.FailsWithin m

/-- The shell has just been started. -/
structure Fresh (session : Session) : Prop where
  printed : session.shell.printed = []
  failures : session.shell.failures = 0

theorem Fresh.stops_eq (h : session.Fresh) (exitOnError : Bool) :
    stops exitOnError (session.shell, .go) = false := by
  simp [stops_go, h.failures]

theorem run_eq (h : session.Fresh) (exitOnError : Bool) :
    session.run exitOnError =
      let reached := takeAll session.files exitOnError (session.shell, .go) session.source.inputs
      ⟨reached.1, [], exitOnError, reached.2⟩ :=
  Run.all_start (h.stops_eq exitOnError) session.source.inputs

theorem failsWithin_iff (h : session.Fresh) (n : Nat) :
    session.FailsWithin n ↔
      0 < (takeAll session.files false (session.shell, .go)
        (session.source.pieces n)).1.failures := by
  rw [FailsWithin, Run.all_start (h.stops_eq false)]
  exact (reports_takeAll false _ _).exists_err_iff h.printed h.failures

/-- What is left depends on the shell at the end. -/
theorem outcome_congr {other : Session} {exitOnError exitOnError' : Bool}
    (hdisk : session.diskWith = other.diskWith)
    (hshell : (session.run exitOnError).shell = (other.run exitOnError').shell) :
    (session.outcome exitOnError).printed = (other.outcome exitOnError').printed ∧
      (session.outcome exitOnError).disk = (other.outcome exitOnError').disk := by
  simp only [outcome, hdisk, hshell, and_self]

theorem outcome_of_failsFirstAt (h : session.Fresh) {n : Nat} (hn : session.FailsFirstAt n) :
    (session.outcome true).printed = ((session.cut n).outcome false).printed ∧
      (session.outcome true).disk = ((session.cut n).outcome false).disk := by
  obtain ⟨hfails, hbefore⟩ := hn
  rw [failsWithin_iff h] at hfails
  have hcut : (session.cut n).Fresh := ⟨h.printed, h.failures⟩
  refine outcome_congr rfl ?_
  rw [run_eq h, run_eq hcut]
  cases n with
  | zero => exact absurd hfails (by simp [Source.pieces, takeAll_nil, h.failures])
  | succ n =>
    have hnone := hbefore n (Nat.lt_succ_self n)
    rw [failsWithin_iff h, Nat.not_lt, Nat.le_zero] at hnone
    exact congrArg Prod.fst (takeAll_of_first_failure hnone hfails)

theorem outcome_of_not_failsWithin (h : session.Fresh) (hnone : ∀ n, ¬ session.FailsWithin n) :
    (session.outcome true).printed = (session.outcome false).printed ∧
      (session.outcome true).disk = (session.outcome false).disk := by
  have hlines := hnone session.source.lines.length
  rw [failsWithin_iff h, Nat.not_lt, Nat.le_zero] at hlines
  refine outcome_congr rfl ?_
  rw [run_eq h, run_eq h]
  exact congrArg Prod.fst (takeAll_of_no_failure hlines)

/-- The exit code of a run that stops at failures tells whether there was one. -/
theorem code_eq_one_iff (h : session.Fresh) :
    (session.outcome true).code = 1 ↔ ∃ text, .err text ∈ (session.outcome true).printed := by
  have hreports : Reports session.shell
      (takeAll session.files true (session.shell, .go) session.source.inputs).1 :=
    reports_takeAll true (session.shell, .go) session.source.inputs
  have hprinted : (∃ text, .err text ∈ (session.outcome true).printed) ↔
      0 < (session.run true).shell.failures := by
    rw [run_eq h, ← hreports.exists_err_iff h.printed h.failures]
    simp only [outcome, run_eq h, List.mem_reverse]
  rw [hprinted, outcome, Run.exitCode, run_eq h]
  split_ifs with hoverflow hfailed
  · have hnone := (takeAll_of_overflow Flow.noConfusion hoverflow).2 rfl
    simp [hnone]
  · simpa using hfailed
  · simpa using hfailed

theorem code_eq_zero_or (h : session.Fresh) : (session.outcome false).code = 0 ∨
    (session.run false).flow = .overflow ∧
      ∃ entry ∈ session.shell.history, History.IsShort entry := by
  by_cases hflow : (session.run false).flow = .overflow
  · refine .inr ⟨hflow, ?_⟩
    rw [run_eq h] at hflow
    exact (takeAll_of_overflow Flow.noConfusion hflow).1
  · refine .inl ?_
    rw [outcome, Run.exitCode, if_neg hflow, run_eq h]
    rfl

end Session

/-- A session starts with a new shell, whatever is done about failures. -/
theorem fresh_of_start {arguments : Shell.Arguments} {environment : Environment} {disk disk' : Disk}
    {stdin : String} {session : Session}
    (hstart : start arguments environment disk stdin = (disk', .ok session)) : session.Fresh := by
  unfold start at hstart
  split at hstart
  · cases hstart
  · split at hstart
    · cases hstart
    · obtain ⟨source, -, hsession⟩ := Outcome.map_eq_ok_iff.1 (Prod.mk.inj hstart).2
      rw [← hsession]
      exact ⟨rfl, rfl⟩

/-- With the option to stop at failures, a run leaves what the input up to the line of the first
failure leaves without it, and its exit code says whether there was one. Without the option the
input is taken up to the first line with which the shell ends, and the exit code is zero, but where
entries of the history ask for one another without end. -/
theorem outcome_exitOnError {arguments : Shell.Arguments} {environment : Environment}
    {disk disk' : Disk} {stdin : String} {session : Session}
    (hstart : start arguments environment disk stdin = (disk', .ok session)) :
    (∀ exitOnError, runWith { arguments with exitOnError } environment disk stdin =
        session.outcome exitOnError) ∧
      (∀ n, session.FailsFirstAt n →
        (session.outcome true).printed = ((session.cut n).outcome false).printed ∧
          (session.outcome true).disk = ((session.cut n).outcome false).disk) ∧
      ((∀ n, ¬ session.FailsWithin n) →
        (session.outcome true).printed = (session.outcome false).printed ∧
          (session.outcome true).disk = (session.outcome false).disk) ∧
      ((session.outcome true).code = 1 ↔ ∃ text, .err text ∈ (session.outcome true).printed) ∧
      Processes session.files session.shell session.source.inputs
        ((session.run false).shell, (session.run false).flow) ∧
      ((session.outcome false).code = 0 ∨ (session.run false).flow = .overflow ∧
        ∃ entry ∈ session.shell.history, History.IsShort entry) := by
  have hfresh := fresh_of_start hstart
  refine ⟨?_, fun n hn => Session.outcome_of_failsFirstAt hfresh hn,
    Session.outcome_of_not_failsWithin hfresh, Session.code_eq_one_iff hfresh, ?_,
    Session.code_eq_zero_or hfresh⟩
  · intro exitOnError
    have hsame : start { arguments with exitOnError } environment disk stdin =
        (disk', .ok session) := hstart
    rw [runWith, hsame]
  · rw [Session.run_eq hfresh]
    exact processes_takeAll session.shell session.source.inputs

theorem outcome_exitOnError_of_two_lines :
    let arguments := Shell.Arguments.none
    let environment : Environment := ⟨none, none, none⟩
    ∃ disk' session,
      start arguments environment ⟨[], []⟩ "[]\n.mode json\n" = (disk', .ok session) ∧
      (session.outcome true).code = 1 ∧ (session.outcome false).code = 0 ∧
      ∃ text, .err text ∈ (session.outcome true).printed := by
  intro arguments environment
  have hcodes : (runWith { arguments with exitOnError := true } environment ⟨[], []⟩
        "[]\n.mode json\n").code = 1 ∧
      (runWith { arguments with exitOnError := false } environment ⟨[], []⟩
        "[]\n.mode json\n").code = 0 := by
    decide +kernel
  have hok : (start arguments environment ⟨[], []⟩ "[]\n.mode json\n").2.isOk = true := by
    decide +kernel
  cases hstart : start arguments environment ⟨[], []⟩ "[]\n.mode json\n" with
  | mk disk' started =>
    cases started with
    | error fault =>
      rw [hstart] at hok
      cases hok
    | ok session =>
      obtain ⟨hrun, -, -, hcode, -⟩ := outcome_exitOnError hstart
      rw [hrun, hrun] at hcodes
      exact ⟨disk', session, rfl, hcodes.1, hcodes.2, hcode.1 hcodes.1⟩

/-- An entry of the history ends the shell like the command that it is, and one that asks for itself
keeps the program from its exit code. -/
theorem outcome_of_exit_entry_and_endless_entry :
    let arguments := { Shell.Arguments.none with quiet := true }
    let environment : Environment := ⟨none, none, none⟩
    let disk (history : String) : Disk := ⟨[(historyPath, .file history.toUTF8)], []⟩
    Text.lines ".hist 1\n.mode json\n" = [".hist 1", ".mode json"] ∧
      (runWith arguments environment (disk ".exit\n") ".hist 1\n.mode json\n").printed = [] ∧
      (runWith arguments environment (disk ".exit\n") ".mode json\n").printed =
        [.out "ℹ Output mode set to: json\n"] ∧
      (runWith arguments environment (disk ".hist 1\n") ".hist 1\n").code ≠ 0 := by
  decide +kernel

end Program

end CampusQuery
