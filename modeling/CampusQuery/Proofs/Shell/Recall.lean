import CampusQuery.Proofs.Outcome
import CampusQuery.Proofs.Text
import CampusQuery.Shell.Run
import Mathlib.Data.List.Perm.Subperm
/-!
Entries of the history that are executed one inside the other.

Entries under `.history` are refused, those under the shorter `.hist` are not: a text may ask for an
entry that asks for a further one. A text whose entries come to an end has the effect of the last of
them, and there are no more of them than the history has. All others never come back.
-/

namespace CampusQuery.Shell

namespace Command

theorem Verb.ofWord?_eq_history {word : String} (h : Verb.ofWord? word = some .history) :
    word = ".history" ∨ word = ".hist" := by
  grind [Verb.ofWord?]

theorem ofVerb_eq_runHistory {verb : Verb} {arguments : List String} {n : Nat}
    (h : ofVerb verb arguments = .ok (.runHistory n)) :
    verb = .history ∧ ∃ word rest, arguments = word :: rest ∧ Settings.natOfText? word = some n := by
  unfold ofVerb at h
  split at h
  all_goals try split at h
  all_goals cases h
  exact ⟨rfl, _, _, rfl, ‹_›⟩

/-- Entries of the history are asked for by two words. -/
theorem ofLine_eq_runHistory {line : String} {n : Nat}
    (h : ofLine line = .ok (some (.runHistory n))) :
    ∃ verb word arguments, Text.words line = verb :: word :: arguments ∧
      (verb = ".history" ∨ verb = ".hist") ∧ Settings.natOfText? word = some n := by
  unfold ofLine at h
  split at h
  · cases h
  · next word arguments hwords =>
    split at h
    · next verb hverb =>
      obtain ⟨command, hcommand, hsome⟩ := Outcome.map_eq_ok_iff.1 h
      cases hsome
      obtain ⟨rfl, number, rest, rfl, hnumber⟩ := ofVerb_eq_runHistory hcommand
      exact ⟨word, number, rest, hwords, Verb.ofWord?_eq_history hverb, hnumber⟩
    · cases h

end Command

namespace History

/-- The entry that executing `text` executes next. -/
def asked? (history : List String) (text : String) : Option String :=
  if Command.isCommand (Text.trim text) then
    match Command.ofLine (Text.trim text) with
    | .ok (some (.runHistory n)) => (entryAt? history n).filter (!isRefused ·)
    | _ => none
  else none

/-- Executing `text` executes the entries `path`, one inside the other, and no further one. -/
inductive Executes (history : List String) : (text : String) → (path : List String) → Prop
  | done {text : String} (h : asked? history text = none) : Executes history text []
  | next {text entry : String} {path : List String} (h : asked? history text = some entry)
      (hrest : Executes history entry path) : Executes history text (entry :: path)

variable {history : List String} {text entry : String} {path : List String}

theorem mem_of_entryAt? {n : Nat} (h : entryAt? history n = some entry) : entry ∈ history := by
  unfold entryAt? at h
  split_ifs at h
  exact List.mem_of_getElem? h

theorem asked?_eq_some_iff : asked? history text = some entry ↔
    Command.isCommand (Text.trim text) = true ∧
      ∃ n, Command.ofLine (Text.trim text) = .ok (some (.runHistory n)) ∧
        entryAt? history n = some entry ∧ isRefused entry = false := by
  unfold asked?
  split_ifs with hcommand
  · simp only [hcommand, true_and]
    split
    · next n hline => simp [hline, Option.filter_eq_some_iff]
    · next hline =>
      refine iff_of_false nofun ?_
      rintro ⟨n, hn, -⟩
      exact hline n hn
  · simp [hcommand]

theorem mem_of_asked? (h : asked? history text = some entry) : entry ∈ history := by
  obtain ⟨-, n, -, hentry, -⟩ := asked?_eq_some_iff.1 h
  exact mem_of_entryAt? hentry

namespace Executes

theorem unique (h : Executes history text path) {other : List String}
    (hother : Executes history text other) : path = other := by
  induction h generalizing other with
  | done h =>
    cases hother with
    | done => rfl
    | next hnext => rw [h] at hnext; cases hnext
  | next h hrest ih =>
    cases hother with
    | done hdone => rw [h] at hdone; cases hdone
    | next hnext hrest' =>
      obtain rfl : _ = _ := Option.some.inj (h.symm.trans hnext)
      rw [ih hrest']

theorem mem_history (h : Executes history text path) : ∀ entry ∈ path, entry ∈ history := by
  induction h with
  | done => simp
  | next h hrest ih => exact List.forall_mem_cons.2 ⟨mem_of_asked? h, ih⟩

/-- From an entry on, the rest is executed. -/
theorem of_mem (h : Executes history text path) (hentry : entry ∈ path) :
    ∃ front back, path = front ++ entry :: back ∧ Executes history entry back := by
  induction h with
  | done => cases hentry
  | @next text first path h hrest ih =>
    rcases List.mem_cons.1 hentry with rfl | hentry
    · exact ⟨[], path, rfl, hrest⟩
    · obtain ⟨front, back, rfl, hback⟩ := ih hentry
      exact ⟨first :: front, back, rfl, hback⟩

/-- An entry that is executed again inside itself is executed without end. -/
theorem nodup (h : Executes history text path) : path.Nodup := by
  induction h with
  | done => exact List.nodup_nil
  | @next text entry path h hrest ih =>
    refine List.nodup_cons.2 ⟨fun hentry => ?_, ih⟩
    obtain ⟨front, back, hpath, hback⟩ := hrest.of_mem hentry
    have hlength := congrArg List.length ((hrest.unique hback).symm.trans hpath)
    rw [List.length_append, List.length_cons] at hlength
    omega

theorem length_le (h : Executes history text path) : path.length ≤ history.length :=
  (h.nodup.subperm fun _ hentry => h.mem_history _ hentry).length_le

end Executes

/-- The text is the short form of the command that asks for an entry. -/
def IsShort (text : String) : Prop :=
  ∃ word arguments, Text.words text = ".hist" :: word :: arguments

/-- What is executed inside an entry is asked for in the short form. -/
theorem isShort_of_asked? (hentry : isRefused entry = false) {further : String}
    (h : asked? history entry = some further) : IsShort entry := by
  obtain ⟨-, n, hline, -, -⟩ := asked?_eq_some_iff.1 h
  obtain ⟨verb, word, arguments, hwords, hverb, -⟩ := Command.ofLine_eq_runHistory hline
  rw [Text.words_trim] at hwords
  rcases hverb with rfl | rfl
  · obtain ⟨tail, htail⟩ := Text.exists_dropBlanks_eq_append hwords
    have hrefused : isRefused entry = true := by
      rw [isRefused, htail, List.isPrefixOf_iff_prefix]
      exact List.prefix_append _ tail
    rw [hrefused] at hentry
    cases hentry
  · exact ⟨word, arguments, hwords⟩

/-- Unless it asks in the short form, an entry that a text asks for is the only one executed. -/
theorem executes_of_not_isShort (h : ∀ entry, asked? history text = some entry → ¬ IsShort entry) :
    ∃ path, Executes history text path ∧ path.length ≤ 1 := by
  cases htext : asked? history text with
  | none => exact ⟨[], .done htext, Nat.zero_le 1⟩
  | some entry =>
    obtain ⟨-, n, -, -, hallowed⟩ := asked?_eq_some_iff.1 htext
    cases hfurther : asked? history entry with
    | none => exact ⟨[entry], .next htext (.done hfurther), Nat.le_refl 1⟩
    | some further => exact absurd (isShort_of_asked? hallowed hfurther) (h entry htext)

end History

open History

variable {s : Shell} {files : Files} {text entry : String} {path : List String}

/-! ### Effects -/

theorem execute_succ_of_asked (h : asked? s.history text = some entry) (depth : Nat) :
    execute files (depth + 1) s text = execute files depth s entry := by
  obtain ⟨hcommand, n, hline, hentry, hallowed⟩ := asked?_eq_some_iff.1 h
  rw [execute]
  simp only [hcommand, if_true, runCommand, hline, perform, runEntry, hentry, hallowed]
  rfl

/-- A command that asks for no entry leaves nothing to be executed. -/
theorem runCommand_of_not_asked (hcommand : Command.isCommand (Text.trim text) = true)
    (h : asked? s.history text = none) (other : Shell → String → Shell × Flow)
    (execute : Shell → String → Shell × Flow) :
    s.runCommand execute files (Text.trim text) = s.runCommand other files (Text.trim text) ∧
      (s.runCommand execute files (Text.trim text)).2 ≠ .overflow := by
  unfold runCommand
  cases hline : Command.ofLine (Text.trim text) with
  | error fault => exact ⟨rfl, nofun⟩
  | ok command? =>
    cases command? with
    | none => exact ⟨rfl, nofun⟩
    | some command =>
      cases command with
      | runHistory n =>
        simp only [asked?, hcommand, hline, if_true] at h
        simp only [perform, runEntry]
        cases hentry : entryAt? s.history n with
        | none => exact ⟨rfl, nofun⟩
        | some entry =>
          have hrefused : isRefused entry = true := by simpa [hentry] using h
          simp [hrefused]
      | _ => exact ⟨rfl, nofun⟩

theorem execute_succ_of_not_asked (h : asked? s.history text = none) (depth : Nat) :
    execute files (depth + 1) s text = execute files 1 s text ∧
      (execute files (depth + 1) s text).2 ≠ .overflow := by
  simp only [execute]
  split_ifs with hcommand
  · exact runCommand_of_not_asked hcommand h _ _
  · exact ⟨rfl, nofun⟩
  · exact ⟨rfl, nofun⟩

/-- Entries that come to an end have the effect of the last, however much room there is for more. -/
theorem execute_of_executes (h : Executes s.history text path) {depth : Nat}
    (hdepth : path.length ≤ depth) :
    execute files (depth + 1) s text =
        execute files 1 s ((text :: path).getLast (List.cons_ne_nil text path)) ∧
      (execute files (depth + 1) s text).2 ≠ .overflow := by
  induction h generalizing depth with
  | done h => exact execute_succ_of_not_asked h depth
  | @next text entry path h hrest ih =>
    obtain ⟨room, rfl⟩ : ∃ room, depth = room + 1 := ⟨depth - 1, by
      rw [List.length_cons] at hdepth
      omega⟩
    rw [execute_succ_of_asked h]
    exact ih (Nat.le_of_succ_le_succ hdepth)

/-- Entries without end never come back, however much room there is. -/
theorem execute_of_not_executes (h : ∀ path, ¬ Executes s.history text path) (depth : Nat) :
    execute files depth s text = (s, .overflow) := by
  induction depth generalizing text with
  | zero => rfl
  | succ depth ih =>
    cases htext : asked? s.history text with
    | none => exact absurd (.done htext) (h [])
    | some entry =>
      rw [execute_succ_of_asked htext]
      exact ih fun path hpath => h (entry :: path) (.next htext hpath)

/-- There is room enough: only entries without end do not come back. -/
theorem takeText_eq_overflow_iff :
    (s.takeText files text).2 = .overflow ↔ ∀ path, ¬ Executes s.history text path := by
  constructor
  · intro h path hpath
    exact (execute_of_executes hpath hpath.length_le).2 h
  · intro h
    rw [takeText, execute_of_not_executes h]

/-- A command of a script is executed like a text by itself. -/
theorem takeLine_eq_takeText (hidle : s.continuing = false)
    (hcommand : Command.isCommand (Text.trim text) = true) :
    s.takeLine files text = s.takeText files text := by
  simp only [takeLine, takeText, execute, hidle, hcommand]
  rfl

/-- A line executes one entry of the history at most, unless that is the short form of the command
that asks for one. Then it comes back, with the effect of that entry. -/
theorem executes_once {history : List String} {line : String}
    (hline : ∀ entry, asked? history line = some entry → ¬ IsShort entry) :
    ∃ path, Executes history line path ∧ path.length ≤ 1 ∧
      ∀ (s : Shell) (files : Files), s.history = history →
        s.takeText files line =
            execute files 1 s ((line :: path).getLast (List.cons_ne_nil line path)) ∧
          (s.takeText files line).2 ≠ .overflow ∧
          (s.continuing = false → Command.isCommand (Text.trim line) = true →
            s.takeLine files line = s.takeText files line) := by
  obtain ⟨path, hpath, hlength⟩ := executes_of_not_isShort hline
  refine ⟨path, hpath, hlength, ?_⟩
  rintro s files rfl
  have hroom := hpath.length_le
  exact ⟨(execute_of_executes hpath hroom).1, (execute_of_executes hpath hroom).2,
    fun hidle hcommand => takeLine_eq_takeText hidle hcommand⟩

theorem executes_once_of_mode_entry :
    asked? [".mode json", ".hist 1"] ".history 1" = some ".mode json" ∧
      ¬ IsShort ".mode json" ∧
      ∃ path, Executes [".mode json", ".hist 1"] ".history 1" path ∧ path.length ≤ 1 := by
  have hasked : asked? [".mode json", ".hist 1"] ".history 1" = some ".mode json" := by
    decide +kernel
  have hshort : ¬ IsShort ".mode json" := by
    rintro ⟨word, arguments, hwords⟩
    have hmode : Text.words ".mode json" = [".mode", "json"] := by decide +kernel
    rw [hmode] at hwords
    exact absurd (List.cons.inj hwords).1 (by decide)
  have hline : ∀ entry, asked? [".mode json", ".hist 1"] ".history 1" = some entry →
      ¬ IsShort entry := by
    intro entry hentry
    rw [hasked] at hentry
    cases hentry
    exact hshort
  obtain ⟨path, hpath, hlength, -⟩ := executes_once hline
  exact ⟨hasked, hshort, path, hpath, hlength⟩

/-- An entry in the short form executes a further entry, and one that asks for itself never comes
back. -/
theorem short_entry_executes_further :
    Executes [".mode json", ".hist 1"] ".hist 2" [".hist 1", ".mode json"] ∧
      (¬ ∃ path, Executes [".mode json", ".hist 1"] ".hist 2" path ∧ path.length ≤ 1) ∧
      ¬ ∃ path, Executes [".hist 1"] ".hist 1" path := by
  have htwo : asked? [".mode json", ".hist 1"] ".hist 2" = some ".hist 1" := by decide +kernel
  have hone : asked? [".mode json", ".hist 1"] ".hist 1" = some ".mode json" := by decide +kernel
  have hnone : asked? [".mode json", ".hist 1"] ".mode json" = none := by decide +kernel
  have hself : asked? [".hist 1"] ".hist 1" = some ".hist 1" := by decide +kernel
  have hboth := Executes.next htwo (.next hone (.done hnone))
  refine ⟨hboth, ?_, ?_⟩
  · rintro ⟨path, hpath, hlength⟩
    rw [← hboth.unique hpath] at hlength
    exact absurd hlength (by decide)
  · rintro ⟨path, hpath⟩
    cases hpath with
    | done h =>
      rw [hself] at h
      cases h
    | next h hrest =>
      obtain rfl : _ = _ := Option.some.inj (hself.symm.trans h)
      exact absurd (congrArg List.length (hrest.unique (.next hself hrest))) (by simp)

end CampusQuery.Shell
