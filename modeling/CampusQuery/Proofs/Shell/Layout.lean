import CampusQuery.Proofs.Shell.Runs
/-!
Queries that are laid out over several lines.

The shell reads what it has of a query after each line. A value is complete with its last token and
not before, so that nothing is run before the last line, and nothing is left behind it. Only where
a short query fails, its text is printed as it was laid out.
-/

namespace CampusQuery.Shell

open Storage Json

variable {s : Shell} {exitOnError : Bool} {files : Directory → Files} {text : String} {value : Json}
  {lines : List String}

/-- The lines of a script that are of account. -/
def scriptLines (script : String) : List String :=
  (Text.lines script).filter (!isComment ·)

theorem scriptInputs_eq (script : String) :
    scriptInputs script = (scriptLines script).map .line ++ [.finish] :=
  rfl

/-- The lines of the script, but for comments, are the tokens of `text`: there are breaks between
some of them, white space as one likes, and no blank line. -/
structure LaysOut (script text : String) : Prop where
  nonblank : ∀ line ∈ scriptLines script, Text.allBlank line = false
  tokens : (scriptLines script).flatMap tokensOf = tokensOf text

/-! ### Lines of a query -/

/-- The shell while lines of a query are waiting for the rest. -/
def holding (s : Shell) (lines : List String) : Shell :=
  { s with buffer := "\n".intercalate lines, continuing := !lines.isEmpty }

theorem holding_nil (h : s.Idle) : s.holding [] = s := by
  obtain ⟨hcontinuing, hbuffer⟩ := h
  obtain ⟨⟩ := s
  cases hcontinuing
  cases hbuffer
  rfl

theorem clearBuffer_holding (h : s.Idle) (lines : List String) :
    (s.holding lines).clearBuffer = s :=
  h.clearBuffer_eq

/-- A line of a query is read together with the lines before it. -/
theorem takeLine_holding (hidle : s.Idle) (files : Files) (done : List String) {line : String}
    (hblank : Text.allBlank line = false) (hwhole : Whole (tokensOf line)) :
    (s.holding done).takeLine files line =
      match Json.read ("\n".intercalate (done ++ [line])) with
      | .ok query => (s.runQuery query ("\n".intercalate (done ++ [line])), .go)
      | .error .endedEarly => (s.holding (done ++ [line]), .go)
      | .error .malformed => (s.fail (invalidJson .malformed), .go) := by
  have htrim : Text.trim line ≠ "" := by
    rw [ne_eq, Text.trim_eq_empty_iff, hblank]
    exact Bool.false_ne_true
  have hline : (s.holding done).IsQueryLine line :=
    ⟨htrim, fun _ => (not_command_of_whole hwhole).1⟩
  have htext : (s.holding done).textWith line = "\n".intercalate (done ++ [line]) := by
    cases done with
    | nil => simp [textWith, holding]
    | cons first done =>
      have hcons : first :: done ≠ [] := List.cons_ne_nil first done
      rw [String.intercalate_append_of_ne_nil hcons (List.cons_ne_nil line []),
        String.intercalate_singleton]
      rfl
  rw [takeLine_of_isQueryLine hline, htext, clearBuffer_holding hidle]
  cases Json.read ("\n".intercalate (done ++ [line])) with
  | ok query => rfl
  | error error =>
    cases error with
    | malformed => rfl
    | endedEarly => simp [holding]

/-- Nothing is run before the last line. -/
theorem takeAll_lines (files : Directory → Files) (done : List String) (hidle : s.Idle)
    (hstart : stops exitOnError (s, .go) = false)
    (hread : Json.read text = .ok value) (hlines : lines ≠ [])
    (hblank : ∀ line ∈ lines, Text.allBlank line = false)
    (htokens : (done ++ lines).flatMap tokensOf = tokensOf text) :
    takeAll files exitOnError (s.holding done, .go) (lines.map .line) =
      (s.runQuery value ("\n".intercalate (done ++ lines)), .go) := by
  have hwhole := whole_of_read hread
  rw [← htokens] at hwhole
  induction lines generalizing done with
  | nil => exact absurd rfl hlines
  | cons line rest ih =>
    rw [List.forall_mem_cons] at hblank
    have happend : done ++ line :: rest = done ++ [line] ++ rest := by simp
    rw [happend] at htokens hwhole ⊢
    rw [List.flatMap_append, whole_append, List.flatMap_append, whole_append] at hwhole
    have htaken : tokensOf ("\n".intercalate (done ++ [line])) = (done ++ [line]).flatMap tokensOf :=
      tokensOf_intercalate (by rw [List.flatMap_append, whole_append]; exact hwhole.1)
    have hline : Whole (tokensOf line) := by simpa using hwhole.1.2
    have hgoes : stops exitOnError (s.holding done, .go) = false := hstart
    rw [List.map_cons, takeAll_cons, step_of_not_stops hgoes]
    change takeAll _ _ ((s.holding done).takeLine (files s.engine.directory) line) _ = _
    rw [takeLine_holding hidle _ done hblank.1 hline]
    rw [List.flatMap_append, ← htaken] at htokens
    cases rest with
    | nil =>
      rw [List.flatMap_nil, List.append_nil] at htokens
      rw [read_congr htokens, hread, List.append_nil]
      rfl
    | cons next rest =>
      have hnext : (next :: rest).flatMap tokensOf ≠ [] := by
        intro hnil
        rw [List.flatMap_cons, List.append_eq_nil_iff] at hnil
        have hblank := hblank.2 next List.mem_cons_self
        have hrest := hwhole.2
        rw [List.flatMap_cons, whole_append] at hrest
        rw [(tokensOf_eq_nil_iff hrest.1).1 hnil.1] at hblank
        cases hblank
      rw [read_eq_endedEarly hread htokens.symm hnext]
      refine ih (done ++ [line]) (List.cons_ne_nil next rest) hblank.2 ?_ ?_
      · rw [List.flatMap_append, ← htaken, htokens]
      · rw [List.flatMap_append, ← htaken, htokens]
        exact whole_of_read hread

theorem scriptLines_ne_nil {script : String} (hlayout : LaysOut script text)
    (hread : Json.read text = .ok value) : scriptLines script ≠ [] := by
  intro hnil
  have htokens := hlayout.tokens
  rw [hnil, List.flatMap_nil] at htokens
  exact tokensOf_ne_nil hread htokens.symm

/-- A value on one line is laid out as it is. -/
theorem laysOut_self (hread : Json.read text = .ok value) (hline : '\n' ∉ text.toList) :
    scriptLines text = [text] ∧ LaysOut text text := by
  have hblank := allBlank_of_read hread
  have hlines : scriptLines text = [text] := by
    have htext : text ≠ "" := by
      rintro rfl
      cases hblank
    rw [scriptLines, Text.lines_of_not_mem hline htext, List.filter_cons_of_pos, List.filter_nil]
    rw [(not_command_of_whole (whole_of_read hread)).2]
    rfl
  refine ⟨hlines, ?_, ?_⟩
  · simpa [hlines] using hblank
  · simp [hlines]

/-! ### Whole scripts -/

/-- The run has run one query, which was written as `text`, and nothing else, and is ready for the
next. -/
structure RanQuery (s : Shell) (query : Json) (text : String) (run : Run) : Prop where
  shell : run.shell = s.runQuery query text
  effect : ∃ more, run.shell =
    { s with
      queries := s.queries + 1
      failures := s.failures + if (s.engine.query query).isOk then 0 else 1
      printed := more ++ s.printed }
  idle : run.shell.Idle
  flow : run.flow = .go

/-- All lines of a query run it once. -/
theorem all_of_laysOut {script : String} (hlayout : LaysOut script text)
    (hread : Json.read text = .ok value) (hidle : s.Idle)
    (hstart : stops exitOnError (s, .go) = false) :
    (Run.start s (scriptInputs script) exitOnError).all files =
      ⟨s.runQuery value ("\n".intercalate (scriptLines script)), [], exitOnError, .go⟩ := by
  have hlines := takeAll_lines files [] hidle hstart hread (scriptLines_ne_nil hlayout hread)
    hlayout.nonblank hlayout.tokens
  rw [holding_nil hidle, List.nil_append] at hlines
  have hafter := (follows_runQuery s value ("\n".intercalate (scriptLines script))).idle hidle
  have hend : takeAll files exitOnError (s, .go) (scriptInputs script) =
      (s.runQuery value ("\n".intercalate (scriptLines script)), .go) := by
    rw [scriptInputs_eq, takeAll_append, hlines, takeAll_cons, takeAll_nil]
    exact step_eq_self (take_finish hafter.continuing)
  rw [Run.all_start hstart, hend]

theorem ranQuery_of_laysOut {script : String} (hlayout : LaysOut script text)
    (hread : Json.read text = .ok value) (hidle : s.Idle)
    (hstart : stops exitOnError (s, .go) = false) (files : Directory → Files) :
    RanQuery s value ("\n".intercalate (scriptLines script))
      ((Run.start s (scriptInputs script) exitOnError).all files) := by
  have heffect := runQuery_eq s value ("\n".intercalate (scriptLines script))
  have hafter := (follows_runQuery s value ("\n".intercalate (scriptLines script))).idle hidle
  rw [all_of_laysOut hlayout hread hidle hstart]
  exact ⟨rfl, heffect, hafter, rfl⟩

/-- A query runs once, with the value that its tokens have, however they are laid out over lines.
The effect is that of its text on one line, but for the text that is printed below a failure. -/
theorem run_laid_out {script : String} (hlayout : LaysOut script text)
    (hread : Json.read text = .ok value) (hline : '\n' ∉ text.toList) (hidle : s.Idle)
    (hstart : exitOnError = true → s.failures = 0) (files : Directory → Files) :
    let broken := (Run.start s (scriptInputs script) exitOnError).all files
    let single := (Run.start s (scriptInputs text) exitOnError).all files
    RanQuery s value ("\n".intercalate (scriptLines script)) broken ∧
      RanQuery s value text single ∧ broken.exitCode = single.exitCode ∧
      (∀ rows, s.engine.query value = .ok rows → broken = single) ∧
      ∀ failure, s.engine.query value = .error failure → ∃ reported : Shell,
        reported.printed = .err ("✗ " ++ tagged failure ++ "\n") :: s.printed ∧
        single.shell = reported.echo text ∧
        broken = { single with shell := reported.echo ("\n".intercalate (scriptLines script)) } := by
  have hgoes : stops exitOnError (s, .go) = false := by
    cases exitOnError with
    | false => rfl
    | true => simp [stops_go, hstart rfl]
  obtain ⟨hlines, hself⟩ := laysOut_self hread hline
  have htext : "\n".intercalate (scriptLines text) = text := by
    rw [hlines, String.intercalate_singleton]
  have hbroken := ranQuery_of_laysOut hlayout hread hidle hgoes files
  have hsingle := ranQuery_of_laysOut hself hread hidle hgoes files
  rw [htext] at hsingle
  refine ⟨hbroken, hsingle, ?_, ?_, ?_⟩
  · obtain ⟨more, hmore⟩ := hbroken.effect
    obtain ⟨more', hmore'⟩ := hsingle.effect
    rw [Run.exitCode, Run.exitCode, hbroken.flow, hsingle.flow, hmore, hmore',
      all_of_laysOut hlayout hread hidle hgoes, all_of_laysOut hself hread hidle hgoes]
  · intro rows hrows
    rw [all_of_laysOut hlayout hread hidle hgoes, all_of_laysOut hself hread hidle hgoes, runQuery,
      runQuery]
    simp only [hrows]
  · intro failure hfailure
    refine ⟨{ s with queries := s.queries + 1 }.fail (tagged failure), rfl, ?_, ?_⟩
    · rw [hsingle.shell, runQuery]
      simp only [hfailure]
      rfl
    · rw [all_of_laysOut hlayout hread hidle hgoes, all_of_laysOut hself hread hidle hgoes,
        runQuery]
      simp only [hfailure]
      rfl

/-- A shell over an empty directory. -/
def bare : Shell :=
  start ⟨[], defaultLimit, 255⟩ [] .table true

theorem run_laid_out_with_comment :
    LaysOut "\x7b\n// nothing yet\n\x7d\n" "\x7b\x7d" ∧
      Json.read "\x7b\x7d" = .ok (.object []) ∧ bare.Idle ∧
      RanQuery bare (.object []) "\x7b\n\x7d"
        ((Run.start bare (scriptInputs "\x7b\n// nothing yet\n\x7d\n") true).all fun _ _ =>
          .error .absent) := by
  have hlines : scriptLines "\x7b\n// nothing yet\n\x7d\n" = ["\x7b", "\x7d"] := by decide +kernel
  have hlayout : LaysOut "\x7b\n// nothing yet\n\x7d\n" "\x7b\x7d" := by
    refine ⟨by rw [hlines]; decide +kernel, ?_⟩
    rw [hlines]
    decide +kernel
  have hread : Json.read "\x7b\x7d" = .ok (.object []) := by decide +kernel
  have hidle : bare.Idle := ⟨rfl, rfl⟩
  have hstart : true = true → bare.failures = 0 := fun _ => rfl
  have hran := (run_laid_out hlayout hread (by decide) hidle hstart fun _ _ => .error .absent).1
  rw [hlines] at hran
  exact ⟨hlayout, hread, hidle, hran⟩

/-- The text below a failure has the lines of the script. -/
theorem printed_of_failed_layout :
    LaysOut "\x7b\n\x7d\n" "\x7b\x7d" ∧ Json.read "\x7b\x7d" = .ok (.object []) ∧ bare.Idle ∧
      let files : Directory → Files := fun _ _ => .error .absent
      ((Run.start bare (scriptInputs "\x7b\n\x7d\n") false).all files).shell.printed ≠
        ((Run.start bare (scriptInputs "\x7b\x7d") false).all files).shell.printed := by
  have hlines : scriptLines "\x7b\n\x7d\n" = ["\x7b", "\x7d"] := by decide +kernel
  refine ⟨⟨by rw [hlines]; decide +kernel, by rw [hlines]; decide +kernel⟩, by decide +kernel,
    ⟨rfl, rfl⟩, by decide +kernel⟩

end CampusQuery.Shell
