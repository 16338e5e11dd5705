import CampusQuery.Proofs.Json.Padding
import CampusQuery.Proofs.Shell.Multiline
/-!
Lines with blanks at their ends.

What a line is is decided without them, but they are read with the lines of a query. As long as they
are white space of JSON and stand between tokens, they have no effect. Otherwise they can only make
a query malformed.
-/

namespace CampusQuery.Shell

open Storage Json

variable {s : Shell} {line : String}

/-! ### Effects -/

/-- Two ways to take a line after which the shell is the same, but for the text of a query that it
keeps, or shows below a failure. -/
structure SameEffect (s : Shell) (reached reached' : Shell × Flow) : Prop where
  flow : reached.2 = reached'.2
  state : { reached.1 with buffer := "", printed := [] } =
    { reached'.1 with buffer := "", printed := [] }
  printed : reached.1.printed = reached'.1.printed ∨
    s.failures < reached.1.failures ∧ ∃ failure shown shown',
      reached.1.printed = shown ++ .err failure :: s.printed ∧
        reached'.1.printed = shown' ++ .err failure :: s.printed

theorem SameEffect.refl (reached : Shell × Flow) : SameEffect s reached reached :=
  ⟨rfl, rfl, .inl rfl⟩

/-- It does not matter how a query is written. -/
theorem sameEffect_runQuery (query : Json) (text text' : String) :
    SameEffect s (s.clearBuffer.runQuery query text, .go)
      (s.clearBuffer.runQuery query text', .go) := by
  cases hquery : s.clearBuffer.engine.query query with
  | ok rows =>
    have hsame : s.clearBuffer.runQuery query text = s.clearBuffer.runQuery query text' := by
      rw [runQuery, runQuery]
      simp only [hquery]
    rw [hsame]
    exact .refl _
  | error failure =>
    let failed := { s.clearBuffer with queries := s.queries + 1 }.fail (tagged failure)
    have hrun (text : String) : s.clearBuffer.runQuery query text = failed.echo text := by
      rw [runQuery]
      simp only [hquery]
      rfl
    obtain ⟨shown, -, hshown⟩ := prints_echo failed text
    obtain ⟨shown', -, hshown'⟩ := prints_echo failed text'
    rw [hrun, hrun, hshown, hshown']
    exact ⟨rfl, rfl, .inr ⟨Nat.lt_succ_self _, _, shown, shown', rfl, rfl⟩⟩

/-! ### Reading -/

theorem isQueryLine_trim : s.IsQueryLine (Text.trim line) ↔ s.IsQueryLine line := by
  rw [IsQueryLine, IsQueryLine, Text.trim_trim]

/-- Commands and blank lines are what they are without the blanks at their ends. -/
theorem takeLine_trim_of_not_isQueryLine (h : ¬ s.IsQueryLine line) (files : Files) :
    s.takeLine files line = s.takeLine files (Text.trim line) := by
  by_cases hblank : Text.trim line = ""
  · simp only [takeLine, hblank, Text.trim_empty, if_true]
  · have hcommand : (!s.continuing && Command.isCommand (Text.trim line)) = true := by
      simpa [IsQueryLine, hblank] using h
    simp only [takeLine, Text.trim_trim, hcommand, if_true]

/-- The characters that are waiting when a line comes. -/
def before (s : Shell) : List Char :=
  if s.continuing then s.buffer.toList ++ ['\n'] else s.buffer.toList

theorem toList_textWith (s : Shell) (line : String) :
    (s.textWith line).toList = s.before ++ line.toList := by
  rw [textWith, before]
  split_ifs <;> simp

theorem Waits.atLine (h : s.Waits) : (Scan.start.feed s.before).AtLine := by
  rw [before]
  split_ifs with hcontinuing
  · exact Scan.atLine_feed_lineFeed s.buffer.toList
  · have hbuffer : s.buffer = "" := by
      by_contra hne
      exact hcontinuing (h.continuing_iff.2 hne)
    rw [hbuffer]
    exact .between []

theorem Waits.read_textWith (h : s.Waits) (line : String) :
    Json.read (s.textWith line) = Json.read (s.textWith (Text.trim line)) ∨
      Json.read (s.textWith line) = .error .malformed := by
  obtain ⟨front, back, hline, hfront, hback⟩ := Text.exists_eq_append_trimChars line.toList
  have hpadded : (s.textWith line).toList =
      s.before ++ (front ++ (Text.trim line).toList ++ back) := by
    rw [toList_textWith, Text.trim, String.toList_ofList, ← hline]
  rcases scanChars_padded h.atLine hfront hback with hsame | hhopeless
  · refine .inl (read_congr ?_)
    rw [tokensOf_eq, tokensOf_eq, hpadded, hsame, toList_textWith]
  · rw [← hpadded, ← tokensOf_eq] at hhopeless
    exact .inr (read_eq_malformed hhopeless.1 hhopeless.2)

theorem Waits.read_textWith_of_whole (h : s.Waits) {front back : List Char}
    (hline : line.toList = front ++ (Text.trim line).toList ++ back)
    (hspaces : ∀ c ∈ front ++ back, IsSpace c)
    (hwhole : Whole (tokensOf (s.textWith (Text.trim line)))) :
    Json.read (s.textWith line) = Json.read (s.textWith (Text.trim line)) := by
  rw [List.forall_mem_append] at hspaces
  rw [tokensOf_eq, toList_textWith] at hwhole
  refine read_congr ?_
  rw [tokensOf_eq, tokensOf_eq, toList_textWith, toList_textWith, hline,
    scanChars_padded_of_whole h.atLine hwhole hspaces.1 hspaces.2]

/-! ### Taking lines -/

theorem sameEffect_of_read_eq (hline : s.IsQueryLine line) (files : Files)
    (h : Json.read (s.textWith line) = Json.read (s.textWith (Text.trim line))) :
    SameEffect s (s.takeLine files line) (s.takeLine files (Text.trim line)) := by
  rw [takeLine_of_isQueryLine hline, takeLine_of_isQueryLine (isQueryLine_trim.2 hline), h]
  cases Json.read (s.textWith (Text.trim line)) with
  | ok query => exact sameEffect_runQuery query _ _
  | error error =>
    cases error with
    | endedEarly => exact ⟨rfl, rfl, .inl rfl⟩
    | malformed => exact .refl _

/-- In any shell that lines lead to, a line with blanks at its ends has the effect that it has
without them, or is refused as malformed. Commands and blank lines are not refused, and neither are
lines of a query with nothing but white space of JSON at their ends, if no token breaks off at the
end of what has been read. -/
theorem takeLine_trim (h : Reached s) (files : Files) (line : String) :
    let padded := s.takeLine files line
    let trimmed := s.takeLine files (Text.trim line)
    (Text.trim line = "" ∨ s.continuing = false ∧ Command.isCommand (Text.trim line) = true →
      padded = trimmed) ∧
    (SameEffect s padded trimmed ∨
      padded = (s.clearBuffer.fail (invalidJson .malformed), .go)) ∧
    ∀ front back, line.toList = front ++ (Text.trim line).toList ++ back →
      (∀ c ∈ front ++ back, IsSpace c) → Whole (tokensOf (s.textWith (Text.trim line))) →
      SameEffect s padded trimmed := by
  intro padded trimmed
  by_cases hline : s.IsQueryLine line
  · refine ⟨?_, ?_, ?_⟩
    · rintro (hblank | ⟨hcontinuing, hcommand⟩)
      · exact absurd hblank hline.1
      · rw [hline.2 hcontinuing] at hcommand
        cases hcommand
    · rcases h.waits.read_textWith line with hsame | hmalformed
      · exact .inl (sameEffect_of_read_eq hline files hsame)
      · refine .inr ?_
        change s.takeLine files line = _
        rw [takeLine_of_isQueryLine hline, hmalformed]
    · intro front back hpadded hspaces hwhole
      exact sameEffect_of_read_eq hline files
        (h.waits.read_textWith_of_whole hpadded hspaces hwhole)
  · have hsame : padded = trimmed := takeLine_trim_of_not_isQueryLine hline files
    rw [hsame]
    exact ⟨fun _ => rfl, .inl (.refl _), fun _ _ _ _ _ => .refl _⟩

/-- Spaces around a query that fails. -/
theorem takeLine_trim_of_spaces :
    let files : Files := fun _ => .error .absent
    let s := start ⟨[], 5000, 255⟩ [] .table true
    SameEffect s (s.takeLine files "\t[] ") (s.takeLine files "[]") ∧
      (s.takeLine files "[]").1.queries = 1 := by
  intro files s
  have htrim : Text.trim "\t[] " = "[]" := by decide
  have hread : Json.read "[]" = .ok (.array []) := by decide +kernel
  obtain ⟨-, -, hspaces⟩ := takeLine_trim (.start ⟨[], 5000, 255⟩ [] .table true) files "\t[] "
  rw [htrim] at hspaces
  refine ⟨hspaces ['\t'] [' '] (by decide) ?_ (whole_of_read hread), by decide +kernel⟩
  simp [IsSpace]

/-- A wide space before a query that is run without it. -/
theorem not_sameEffect_of_wide_space :
    ¬ ∀ s : Shell, Reached s → ∀ files line,
      SameEffect s (s.takeLine files line) (s.takeLine files (Text.trim line)) := by
  intro hsame
  have hstate := (hsame _ (.start ⟨[], 5000, 255⟩ [] .table true) (fun _ => .error .absent)
    "\u3000[]").state
  exact absurd (congrArg Shell.queries hstate) (by decide +kernel)

end CampusQuery.Shell
