import CampusQuery.Proofs.Json.Prefixes
import CampusQuery.Proofs.Shell.Recall
import CampusQuery.Proofs.Shell.Runs
import CampusQuery.Program
/-!
Scripts and texts among the arguments.

The lines of a script are collected until they are a query, a text among the arguments is executed
by itself. Where each line is complete, there is nothing to collect, and the two are the same.
-/

namespace CampusQuery.Shell

open Storage Json

variable {s : Shell} {exitOnError : Bool} {files : Directory → Files} {entry line : String}

/-- What a line or a text among the arguments may be: without the spaces and tabs around it, it is
empty, a command, or the text of a value. -/
def IsEntry (entry : String) : Prop :=
  ∃ front back text,
    (∀ c ∈ front, c = ' ' ∨ c = '\t') ∧ (∀ c ∈ back, c = ' ' ∨ c = '\t') ∧
      entry.toList = front ++ String.toList text ++ back ∧
      (text = "" ∨ text.toList.head? = some '.' ∨ ∃ value, Json.read text = .ok value)

/-- Each of the entries with a line feed behind it. -/
def scriptOf (entries : List String) : String :=
  .join (entries.map (· ++ "\n"))

/-- The script has the entries as its lines. The last of them may do without a line feed. -/
def IsScriptOf (script : String) (entries : List String) : Prop :=
  script = scriptOf entries ∨ script ++ "\n" = scriptOf entries

/-- A complete piece of input: nothing, a command, or a value. -/
inductive Complete (line : String) : Prop
  | blank (h : Text.trim line = "")
  | command (h : Command.isCommand (Text.trim line) = true)
  | query (value : Json) (h : Json.read line = .ok value)

theorem IsEntry.complete (h : IsEntry entry) : Complete entry := by
  obtain ⟨front, back, text, hfront, hback, hentry, htext⟩ := h
  have hblank {c : Char} (hc : c = ' ' ∨ c = '\t') : Text.isBlank c = true := by
    rcases hc with rfl | rfl <;> rfl
  have hspace {c : Char} (hc : c = ' ' ∨ c = '\t') : IsSpace c := by
    rcases hc with rfl | rfl
    · exact .inl rfl
    · exact .inr (.inr (.inr rfl))
  have htrim := Text.trim_append (fun c hc => hblank (hfront c hc))
    (fun c hc => hblank (hback c hc)) hentry
  rcases htext with rfl | hpoint | ⟨value, hvalue⟩
  · exact .blank htrim
  · refine .command ?_
    obtain ⟨rest, hrest⟩ := List.head?_eq_some_iff.1 hpoint
    rw [htrim, Command.isCommand, Text.head?_trim, hrest]
    rfl
  · exact .query value (read_of_spaces (fun c hc => hspace (hfront c hc))
      (fun c hc => hspace (hback c hc)) hentry hvalue)

/-- A complete piece stays complete without a carriage return at its end. -/
theorem Complete.endLine (h : Complete entry) :
    Complete (Text.endLine entry.toList.reverse) ∧
      Text.trim (Text.endLine entry.toList.reverse) = Text.trim entry := by
  obtain ⟨back, hback, hentry⟩ := Text.toList_endLine entry.toList.reverse
  rw [List.reverse_reverse] at hentry
  have hblank : ∀ c ∈ back, Text.isBlank c = true := by
    intro c hc
    rw [hback c hc]
    rfl
  have htrim := Text.trim_append (s := Text.endLine entry.toList.reverse) (t := entry)
    (List.forall_mem_nil _) hblank hentry
  refine ⟨?_, htrim.symm⟩
  cases h with
  | blank h => exact .blank (htrim.symm.trans h)
  | command h => exact .command (by rwa [← htrim])
  | query value h => exact .query value (read_of_blanks (List.forall_mem_nil _) hblank hentry h)

theorem Complete.isComment_eq_false (h : Complete line) : isComment line = false := by
  cases h with
  | blank h =>
    refine Shell.isComment_eq_false ?_
    rw [← Text.head?_trim, h]
    exact nofun
  | command h =>
    refine Shell.isComment_eq_false ?_
    rw [Command.isCommand, beq_iff_eq] at h
    rw [← Text.head?_trim, h]
    decide
  | query value h => exact (not_command_of_whole (whole_of_read h)).2

theorem takeText_congr {text text' : String} (h : Text.trim text = Text.trim text')
    (files : Files) : s.takeText files text = s.takeText files text' := by
  simp only [takeText, execute, h]

theorem runQuery_trim (query : Json) (text : String) :
    s.runQuery query (Text.trim text) = s.runQuery query text := by
  simp only [runQuery, showQueryFailure, echo, Text.trim_trim]

theorem takeLine_eq_takeText_of_complete (hidle : s.Idle) (hline : Complete line) (files : Files) :
    s.takeLine files line = s.takeText files line := by
  cases hline with
  | blank h => rw [takeLine_blank hidle h, takeText_blank h]
  | command h => exact takeLine_eq_takeText hidle.continuing h
  | query value h =>
    have hwhole := whole_of_read h
    have htrim : Text.trim line ≠ "" := by
      rw [ne_eq, Text.trim_eq_empty_iff, allBlank_of_read h]
      exact Bool.false_ne_true
    have hcommand := (not_command_of_whole hwhole).1
    have htext : s.takeText files line = (s.runQuery value line, .go) := by
      simp only [takeText, execute, hcommand, htrim, Bool.false_eq_true, if_false, runText,
        read_trim h, runQuery_trim]
    rw [htext]
    simp only [takeLine, hidle.continuing, hidle.buffer, hidle.clearBuffer_eq, hcommand, htrim,
      Bool.and_false, Bool.false_eq_true, if_false, String.empty_append, h]

/-! ### Whole runs -/

/-- The line does what the entry does. -/
structure Carries (line entry : String) : Prop where
  complete : Complete line
  trim_eq : Text.trim line = Text.trim entry

theorem IsEntry.carries (h : IsEntry entry) : Carries entry entry :=
  ⟨h.complete, rfl⟩

theorem IsEntry.carries_endLine (h : IsEntry entry) :
    Carries (Text.endLine entry.toList.reverse) entry := by
  obtain ⟨hcomplete, htrim⟩ := h.complete.endLine
  exact ⟨hcomplete, htrim⟩

/-- Lines and entries keep in step, and no line is left over. -/
theorem takeAll_of_carries {reached : Shell × Flow} (hidle : reached.1.Idle)
    {lines entries : List String} (h : List.Forall₂ Carries lines entries) :
    takeAll files exitOnError reached (lines.map .line) =
        takeAll files exitOnError reached (entries.map .text) ∧
      (takeAll files exitOnError reached (entries.map .text)).1.Idle := by
  induction h generalizing reached with
  | nil => exact ⟨rfl, hidle⟩
  | @cons line entry lines entries hfirst _ ih =>
    have hstep : step files exitOnError reached (.line line) =
        step files exitOnError reached (.text entry) := by
      simp only [step, take, takeLine_eq_takeText_of_complete hidle hfirst.complete,
        takeText_congr hfirst.trim_eq]
    have hafter : (step files exitOnError reached (.text entry)).1.Idle := by
      rw [step]
      split_ifs
      · exact hidle
      · exact (follows_takeText _ _ _).idle hidle
    rw [List.map_cons, List.map_cons, takeAll_cons, takeAll_cons, hstep]
    exact ih hafter

theorem takeAll_blank {reached : Shell × Flow} {entries : List String}
    (h : ∀ entry ∈ entries, entry = "") :
    takeAll files exitOnError reached (entries.map .text) = reached := by
  induction entries with
  | nil => rfl
  | cons entry entries ih =>
    rw [List.forall_mem_cons] at h
    obtain ⟨rfl, hrest⟩ := h
    have hblank : ∀ files, reached.1.take files (.text "") = (reached.1, .go) :=
      takeText_blank Text.trim_empty
    rw [List.map_cons, takeAll_cons, step_eq_self hblank, ih hrest]

theorem toList_scriptOf (entries : List String) :
    (scriptOf entries).toList = entries.flatMap fun entry => entry.toList ++ ['\n'] := by
  rw [scriptOf, String.toList_join, List.flatMap_map]
  simp

/-- The lines of the script do what the entries do, but for a last one that is empty. -/
theorem carries_lines {script : String} {entries : List String}
    (hscript : IsScriptOf script entries) (hlines : ∀ entry ∈ entries, '\n' ∉ entry.toList)
    (hentries : ∀ entry ∈ entries, IsEntry entry) :
    ∃ carried last, entries = carried ++ last ∧ (∀ entry ∈ last, entry = "") ∧
      List.Forall₂ Carries (Text.lines script) carried := by
  have hended {ended : List String} (hended : ∀ entry ∈ ended, IsEntry entry) :
      List.Forall₂ Carries (ended.map fun line => Text.endLine line.toList.reverse) ended :=
    List.forall₂_map_left_iff.2
      (List.forall₂_same.2 fun entry hentry => (hended entry hentry).carries_endLine)
  rcases hscript with rfl | hscript
  · refine ⟨entries, [], (List.append_nil entries).symm, nofun, ?_⟩
    have hall := Text.linesFrom_flatMap hlines []
    rw [List.append_nil, Text.linesFrom_nil_nil, List.append_nil] at hall
    rw [Text.lines, toList_scriptOf, hall]
    exact hended hentries
  · rcases List.eq_nil_or_concat' entries with rfl | ⟨ended, last, rfl⟩
    · have hempty := congrArg String.toList hscript
      rw [toList_scriptOf, String.toList_append] at hempty
      exact absurd hempty (by simp)
    · rw [List.forall_mem_append] at hlines hentries
      have htext : script.toList =
          ended.flatMap (fun entry => entry.toList ++ ['\n']) ++ last.toList := by
        have htoList := congrArg String.toList hscript
        rw [toList_scriptOf, List.flatMap_append, String.toList_append, List.flatMap_singleton,
          ← List.append_assoc] at htoList
        exact List.append_cancel_right htoList
      have hall := Text.linesFrom_flatMap hlines.1 last.toList
      rw [← htext, ← Text.lines,
        Text.linesFrom_of_not_mem (hlines.2 last List.mem_cons_self)] at hall
      by_cases hempty : last = ""
      · refine ⟨ended, [last], rfl, by simpa using hempty, ?_⟩
        subst hempty
        rw [hall]
        simpa using hended hentries.1
      · refine ⟨ended ++ [last], [], (List.append_nil _).symm, nofun, ?_⟩
        have hlast := (hentries.2 last List.mem_cons_self).carries
        have hcharacters : last.toList ≠ [] := by simpa using hempty
        rw [hall, if_neg (by simpa using hcharacters)]
        refine List.rel_append (hended hentries.1) (.cons ?_ .nil)
        rwa [List.reverse_nil, List.nil_append, String.ofList_toList]

theorem all_script_eq_all_texts {script : String} {entries : List String}
    (hscript : IsScriptOf script entries) (hlines : ∀ entry ∈ entries, '\n' ∉ entry.toList)
    (hentries : ∀ entry ∈ entries, IsEntry entry) (hidle : s.Idle)
    (hstart : stops exitOnError (s, .go) = false) :
    (Run.start s (Source.script script).inputs exitOnError).all files =
      (Run.start s (Source.texts entries).inputs exitOnError).all files := by
  obtain ⟨carried, last, rfl, hlast, hcarries⟩ := carries_lines hscript hlines hentries
  have hcomments : (Text.lines script).filter (!isComment ·) = Text.lines script := by
    refine List.filter_eq_self.2 fun line hline => ?_
    obtain ⟨entry, -, hcarried⟩ := Outcome.exists_of_forall₂_of_mem hcarries.flip hline
    rw [hcarried.complete.isComment_eq_false]
    rfl
  have hreached : (s, Flow.go).1.Idle := hidle
  obtain ⟨hsame, hafter⟩ := takeAll_of_carries hreached hcarries
  have hend : takeAll files exitOnError (s, .go) (Source.script script).inputs =
      takeAll files exitOnError (s, .go) (Source.texts (carried ++ last)).inputs := by
    rw [Source.inputs, Source.inputs, scriptInputs, hcomments, List.map_append, takeAll_append,
      takeAll_append, hsame, takeAll_blank hlast, takeAll_cons, takeAll_nil,
      step_eq_self (take_finish hafter.continuing)]
  rw [Run.all_start hstart, Run.all_start hstart, hend]

end CampusQuery.Shell

namespace CampusQuery.Program

open Shell Storage

/-- Complete entries leave the same as the lines of a script and as texts among the arguments: what
is printed, the exit code and the disk. -/
theorem outcome_script_eq_outcome_texts {script : String} {entries : List String}
    (hscript : IsScriptOf script entries) (hlines : ∀ entry ∈ entries, '\n' ∉ entry.toList)
    (hentries : ∀ entry ∈ entries, IsEntry entry) (disk : Disk) (names : List String)
    (engine : Engine) (history : List String) (mode : OutputMode) (quiet exitOnError : Bool) :
    Session.outcome ⟨disk, names, Shell.start engine history mode quiet, .script script⟩
        exitOnError =
      Session.outcome ⟨disk, names, Shell.start engine history mode quiet, .texts entries⟩
        exitOnError := by
  have hidle : (Shell.start engine history mode quiet).Idle := ⟨rfl, rfl⟩
  have hstart : stops exitOnError (Shell.start engine history mode quiet, .go) = false := by
    simp [stops_go, Shell.start]
  unfold Session.outcome Session.run
  rw [all_script_eq_all_texts hscript hlines hentries hidle hstart]
  rfl

theorem outcome_script_eq_outcome_texts_of_two :
    IsScriptOf " .mode json\t\n\n[ ]" [" .mode json\t", "", "[ ]"] ∧
      (∀ entry ∈ [" .mode json\t", "", "[ ]"], '\n' ∉ entry.toList ∧ IsEntry entry) ∧
      ∀ disk, Session.outcome ⟨disk, [], Shell.start ⟨[], defaultLimit, 255⟩ [] .table true,
          .script " .mode json\t\n\n[ ]"⟩ true =
        Session.outcome ⟨disk, [], Shell.start ⟨[], defaultLimit, 255⟩ [] .table true,
          .texts [" .mode json\t", "", "[ ]"]⟩ true := by
  have hscript : IsScriptOf " .mode json\t\n\n[ ]" [" .mode json\t", "", "[ ]"] := .inr (by decide)
  have hlines : ∀ entry ∈ [" .mode json\t", "", "[ ]"], '\n' ∉ entry.toList := by decide
  have hentries : ∀ entry ∈ [" .mode json\t", "", "[ ]"], IsEntry entry := by
    simp only [List.forall_mem_cons, List.not_mem_nil, false_imp_iff, implies_true, and_true]
    refine ⟨⟨[' '], ['\t'], ".mode json", by simp, by simp, by decide, .inr (.inl (by decide))⟩,
      ⟨[], [], "", nofun, nofun, by decide, .inl rfl⟩,
      ⟨[], [], "[ ]", nofun, nofun, by decide, .inr (.inr ⟨.array [], by decide +kernel⟩)⟩⟩
  refine ⟨hscript, fun entry hentry => ⟨hlines entry hentry, hentries entry hentry⟩, fun disk => ?_⟩
  exact outcome_script_eq_outcome_texts hscript hlines hentries disk [] _ [] .table true true

end CampusQuery.Program
