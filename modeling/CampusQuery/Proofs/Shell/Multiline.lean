import CampusQuery.Proofs.Shell.Runs
/-!
The lines of a query that is not complete.

Lines are kept as long as their text could still become JSON, so what is kept always ends too early.
A blank line has therefore nothing to run, and what looks like a command among the lines of a query
is a part of it.
-/

namespace CampusQuery.Shell

open Storage

variable {s s' : Shell}

/-! ### The shells of scripts -/

/-- A shell that lines lead to, from a start on. Files may change from line to line. -/
inductive Reached : Shell → Prop
  | start (engine : Engine) (history : List String) (mode : OutputMode) (quiet : Bool) :
      Reached (.start engine history mode quiet)
  | line {s : Shell} (h : Reached s) (files : Files) (text : String) :
      Reached (s.takeLine files text).1

/-- The end of a script is taken as a blank line, if anything is. -/
theorem Reached.finish (h : Reached s) (files : Files) : Reached (s.take files .finish).1 := by
  rw [take]
  split_ifs
  · exact h.line files ""
  · exact h

/-- A run over a script stays among the shells of scripts. -/
theorem Reached.takeAll {reached : Shell × Flow} (h : Reached reached.1)
    (files : Directory → Files) (exitOnError : Bool) {inputs : List Input}
    (hinputs : ∀ text, Input.text text ∉ inputs) :
    Reached (takeAll files exitOnError reached inputs).1 := by
  induction inputs generalizing reached with
  | nil => exact h
  | cons input inputs ih =>
    have hstep : Reached (step files exitOnError reached input).1 := by
      rw [step]
      split_ifs
      · exact h
      · cases input with
        | line text => exact h.line _ text
        | finish => exact h.finish _
        | text text => exact absurd List.mem_cons_self (hinputs text)
    exact ih hstep fun text hmem => hinputs text (List.mem_cons_of_mem input hmem)

/-! ### Waiting -/

/-- There are lines waiting for the rest of their query exactly if the shell says so, and they could
still become one. -/
structure Waits (s : Shell) : Prop where
  continuing_iff : s.continuing = true ↔ s.buffer ≠ ""
  endedEarly : s.continuing = true → Json.read s.buffer = .error .endedEarly

theorem Idle.waits (h : s.Idle) : s.Waits := by
  refine ⟨?_, ?_⟩
  · simp [h.continuing, h.buffer]
  · simp [h.continuing]

theorem idle_clearBuffer (s : Shell) : s.clearBuffer.Idle :=
  ⟨rfl, rfl⟩

theorem Follows.waits (h : Follows s s') (hs : s.Waits) : s'.Waits := by
  refine ⟨?_, ?_⟩
  · rw [h.continuing, h.buffer]
    exact hs.continuing_iff
  · rw [h.continuing, h.buffer]
    exact hs.endedEarly

theorem textWith_ne_empty {line : String} (h : Text.trim line ≠ "") : s.textWith line ≠ "" := by
  intro hempty
  rw [textWith, String.append_eq_empty_iff] at hempty
  rw [hempty.2, Text.trim_empty] at h
  exact h rfl

/-- Whatever a line is, what waits behind it ends too early. -/
theorem Waits.takeLine (h : s.Waits) (files : Files) (line : String) :
    (s.takeLine files line).1.Waits := by
  have htakes := takesLine s files line
  generalize s.takeLine files line = taken at htakes ⊢
  cases htakes with
  | command => exact (follows_runCommand (follows_execute files _) s files _).waits h
  | passed => exact h
  | ended => exact ((follows_runText s.clearBuffer s.buffer).idle s.idle_clearBuffer).waits
  | ran => exact ((follows_runQuery s.clearBuffer _ _).idle s.idle_clearBuffer).waits
  | held hline hread => exact ⟨by simp [textWith_ne_empty hline.1], fun _ => hread⟩
  | refused => exact ((follows_fail s.clearBuffer _).idle s.idle_clearBuffer).waits

theorem Reached.waits (h : Reached s) : s.Waits := by
  induction h with
  | start => exact Idle.waits ⟨rfl, rfl⟩
  | line _ files line ih => exact ih.takeLine files line

/-! ### Lines behind lines that wait -/

/-- What comes of a line behind lines that wait: it goes with them, and at most a query is run. -/
inductive GoesWith (s : Shell) (line : String) : Shell → Prop
  | held (hread : Json.read (s.buffer ++ "\n" ++ line) = .error .endedEarly) :
      GoesWith s line { s with buffer := s.buffer ++ "\n" ++ line }
  | ran {query : Json} (hread : Json.read (s.buffer ++ "\n" ++ line) = .ok query) :
      GoesWith s line (s.clearBuffer.runQuery query (s.buffer ++ "\n" ++ line))
  | refused (error : Json.ReadError) : GoesWith s line (s.clearBuffer.fail (invalidJson error))

/-- Nothing changes that a command could change. -/
theorem GoesWith.frame {line : String} (h : GoesWith s line s') :
    s'.engine = s.engine ∧ s'.history = s.history ∧ s'.mode = s.mode ∧ s'.timing = s.timing := by
  cases h with
  | held | refused => exact ⟨rfl, rfl, rfl, rfl⟩
  | ran =>
    obtain ⟨more, hmore⟩ := runQuery_eq s.clearBuffer _ _
    rw [hmore]
    exact ⟨rfl, rfl, rfl, rfl⟩

/-- Lines that wait are given up at a blank line. -/
theorem Waits.takeLine_blank (h : s.Waits) (hcontinuing : s.continuing = true) {line : String}
    (hblank : Text.trim line = "") (files : Files) :
    s.takeLine files line = (s.clearBuffer.fail (invalidJson .endedEarly), .go) := by
  have hend : s.takeLine files line = (s.clearBuffer.runText s.buffer, .go) := by
    simp [Shell.takeLine, hcontinuing, hblank]
  rw [hend, runText, h.endedEarly hcontinuing]

theorem fail_endedEarly (s : Shell) :
    s.fail (invalidJson .endedEarly) = { s with
      failures := s.failures + 1
      printed := .err "✗ Invalid JSON: the text ends too early\n" :: s.printed } := by
  have htext : "✗ " ++ invalidJson .endedEarly ++ "\n" =
      "✗ Invalid JSON: the text ends too early\n" := by decide +kernel
  rw [fail, error, print, htext]

theorem Waits.goesWith (h : s.Waits) (hcontinuing : s.continuing = true) (line : String) :
    ∃ s', GoesWith s line s' ∧ ∀ files, s.takeLine files line = (s', .go) := by
  by_cases hblank : Text.trim line = ""
  · exact ⟨_, .refused .endedEarly, h.takeLine_blank hcontinuing hblank⟩
  · have hline : s.IsQueryLine line :=
      ⟨hblank, fun hidle => Bool.noConfusion (hcontinuing.symm.trans hidle)⟩
    have htext : s.textWith line = s.buffer ++ "\n" ++ line := by rw [textWith, if_pos hcontinuing]
    simp only [takeLine_of_isQueryLine hline, htext]
    cases hread : Json.read (s.buffer ++ "\n" ++ line) with
    | ok query => exact ⟨_, .ran hread, fun _ => rfl⟩
    | error error =>
      cases error with
      | endedEarly =>
        refine ⟨_, .held hread, fun _ => ?_⟩
        rw [← hcontinuing]
      | malformed => exact ⟨_, .refused .malformed, fun _ => rfl⟩

/-- In every shell that lines lead to, there are lines waiting exactly if it says so, and their text
ends too early. A blank line and the end of the script then only give them up, with one error and
one failure. No other line is taken as a command either: it changes nothing that a command could,
reads no file, and the shell goes on. -/
theorem waits_of_reached (h : Reached s) :
    (s.continuing = true ↔ s.buffer ≠ "") ∧
    (s.continuing = true → Json.read s.buffer = .error .endedEarly) ∧
    (s.continuing = true → ∀ files,
      let given := { s with
        buffer := ""
        continuing := false
        failures := s.failures + 1
        printed := .err "✗ Invalid JSON: the text ends too early\n" :: s.printed }
      (∀ line, Text.trim line = "" → s.takeLine files line = (given, .go)) ∧
        s.take files .finish = (given, .go)) ∧
    (s.continuing = true → ∀ line, ∃ s', GoesWith s line s' ∧
      (s'.engine = s.engine ∧ s'.history = s.history ∧ s'.mode = s.mode ∧ s'.timing = s.timing) ∧
      ∀ files, s.takeLine files line = (s', .go)) := by
  have hwaits := h.waits
  refine ⟨hwaits.continuing_iff, hwaits.endedEarly, ?_, ?_⟩
  · intro hcontinuing files given
    have hgiven (line : String) (hblank : Text.trim line = "") :
        s.takeLine files line = (given, .go) := by
      rw [hwaits.takeLine_blank hcontinuing hblank, fail_endedEarly]
      rfl
    refine ⟨hgiven, ?_⟩
    rw [take, if_pos hcontinuing]
    exact hgiven "" Text.trim_empty
  · intro hcontinuing line
    obtain ⟨s', hgoes, htakes⟩ := hwaits.goesWith hcontinuing line
    exact ⟨s', hgoes, hgoes.frame, htakes⟩

/-- Behind an open bracket, `.exit` is no command. -/
theorem waits_of_open_bracket :
    let files : Files := fun _ => .error .absent
    let s := ((start ⟨[], 5000, 255⟩ [] .table true).takeLine files " [").1
    s.continuing = true ∧ s.buffer = " [" ∧
      (s.takeLine files "\u3000").1.printed =
        [.err "✗ Invalid JSON: the text ends too early\n"] ∧
      (s.take files .finish).1.failures = 1 ∧ (s.takeLine files ".exit").2 = .go := by
  intro files s
  have hreached : Reached s := (Reached.start ⟨[], 5000, 255⟩ [] .table true).line files " ["
  have hbuffer : s.buffer = " [" := by decide +kernel
  have hprinted : s.printed = [] := by decide +kernel
  have hfailures : s.failures = 0 := by decide +kernel
  obtain ⟨hiff, -, hblank, hgoes⟩ := waits_of_reached hreached
  have hcontinuing : s.continuing = true := hiff.2 (by rw [hbuffer]; decide)
  obtain ⟨hline, hfinish⟩ := hblank hcontinuing files
  obtain ⟨s', -, -, htakes⟩ := hgoes hcontinuing ".exit"
  refine ⟨hcontinuing, hbuffer, ?_, ?_, ?_⟩
  · rw [hline "\u3000" (by decide), hprinted]
  · rw [hfinish, hfailures]
  · rw [htakes files]

end CampusQuery.Shell
