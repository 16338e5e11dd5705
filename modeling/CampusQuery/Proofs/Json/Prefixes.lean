import CampusQuery.Proofs.Json.Breaks
import CampusQuery.Proofs.Outcome
/-!
Texts that are part of the text of a value.

A value is complete with the last of its tokens and not before: any fewer of them end too early.
Whether a text is one, and of which value, is settled by its tokens alone.
-/

namespace CampusQuery.Json

variable {rules : Rules} {front back tokens : List Token} {outline : Outline}

/-! ### Tokens -/

namespace Reading

/-- A broken token stands nowhere. -/
theorem push_broken_ne_ok (rules : Rules) (reading : Reading) (inString : Bool) (error : ReadError)
    (reading' : Reading) : reading.push rules (.broken inString error) ≠ .ok reading' := by
  cases reading with
  | firstKey | nextKey => cases inString <;> exact nofun
  | _ => exact nofun

/-- Nothing may come behind a value. -/
theorem ne_finished_of_push {reading reading' : Reading} {t : Token}
    (h : reading.push rules t = .ok reading') (outline : Outline) :
    reading ≠ .finished outline := by
  rintro rfl
  cases h

end Reading

namespace Outline

/-- No token of a value is broken off. -/
theorem whole_of_ofTokens (h : ofTokens rules tokens = .ok outline) : Whole tokens := by
  intro inString error hmem
  obtain ⟨front, back, rfl⟩ := List.append_of_mem hmem
  obtain ⟨reading, hreading, -⟩ := Outcome.bind_eq_ok_iff.1 h
  rw [List.foldlM_append] at hreading
  obtain ⟨before, -, hback⟩ := Outcome.bind_eq_ok_iff.1 hreading
  rw [List.foldlM_cons] at hback
  obtain ⟨behind, hpush, -⟩ := Outcome.bind_eq_ok_iff.1 hback
  exact Reading.push_broken_ne_ok rules before inString error behind hpush

/-- The first tokens of a value, unless they are all of them, end too early. -/
theorem ofTokens_eq_endedEarly (h : ofTokens rules (front ++ back) = .ok outline)
    (hback : back ≠ []) : ofTokens rules front = .error .endedEarly := by
  obtain ⟨t, back, rfl⟩ := List.exists_cons_of_ne_nil hback
  obtain ⟨reading, hreading, -⟩ := Outcome.bind_eq_ok_iff.1 h
  rw [List.foldlM_append] at hreading
  obtain ⟨before, hfront, hrest⟩ := Outcome.bind_eq_ok_iff.1 hreading
  rw [List.foldlM_cons] at hrest
  obtain ⟨behind, hpush, -⟩ := Outcome.bind_eq_ok_iff.1 hrest
  have hfinish : before.finish = .error .endedEarly := by
    cases before with
    | finished outline => exact absurd rfl (Reading.ne_finished_of_push hpush outline)
    | _ => rfl
  rw [ofTokens, hfront]
  exact hfinish

end Outline

/-! ### Texts -/

variable {s t : String} {value : Json}

/-- The tokens of a string. -/
def tokensOf (s : String) : List Token :=
  scan (.ofString s)

theorem tokensOf_eq (s : String) : tokensOf s = scanChars s.toList :=
  scan_map_char s.toList

theorem read_eq_ok_iff : read s = .ok value ↔ ∃ outline json,
    Outline.ofTokens .values (tokensOf s) = .ok outline ∧ outline.toJson? = some json ∧
      json.settled = value := by
  rw [read, readUnder, Outcome.bind_eq_ok_iff]
  refine exists_congr fun outline => ?_
  cases outline.toJson? <;> simp [tokensOf]

/-- The tokens of a text are all that is read of it. -/
theorem read_congr (h : tokensOf s = tokensOf t) : read s = read t := by
  unfold tokensOf at h
  rw [read, read, readUnder, readUnder, h]

theorem whole_of_read (h : read s = .ok value) : Whole (tokensOf s) := by
  obtain ⟨outline, json, houtline, -⟩ := read_eq_ok_iff.1 h
  exact Outline.whole_of_ofTokens houtline

/-- A text with the first tokens of another, and not all of them, ends too early. -/
theorem read_eq_endedEarly (h : read t = .ok value) (ht : tokensOf t = tokensOf s ++ back)
    (hback : back ≠ []) : read s = .error .endedEarly := by
  obtain ⟨outline, json, houtline, -⟩ := read_eq_ok_iff.1 h
  rw [ht] at houtline
  have hs := Outline.ofTokens_eq_endedEarly houtline hback
  unfold tokensOf at hs
  rw [read, readUnder, hs]
  rfl

/-- White space at the ends of the text of a value is of no account. -/
theorem read_of_spaces {front back : List Char} (hfront : ∀ c ∈ front, IsSpace c)
    (hback : ∀ c ∈ back, IsSpace c) (ht : t.toList = front ++ s.toList ++ back)
    (h : read s = .ok value) : read t = .ok value := by
  have hwhole := whole_of_read h
  rw [tokensOf_eq] at hwhole
  rw [← h]
  refine read_congr ?_
  rw [tokensOf_eq, tokensOf_eq, ht, scanChars_spaces hwhole hfront hback]

/-- Blanks at the ends of the text of a value can be left out. -/
theorem read_of_blanks {front back : List Char} (hfront : ∀ c ∈ front, Text.isBlank c = true)
    (hback : ∀ c ∈ back, Text.isBlank c = true) (ht : t.toList = front ++ s.toList ++ back)
    (h : read t = .ok value) : read s = .ok value := by
  have hwhole := whole_of_read h
  rw [tokensOf_eq, ht] at hwhole
  rw [← h]
  refine read_congr ?_
  rw [tokensOf_eq, tokensOf_eq, ht, scanChars_of_blanks hfront hback hwhole]

theorem read_trim (h : read s = .ok value) : read (Text.trim s) = .ok value := by
  obtain ⟨front, back, hs, hfront, hback⟩ := Text.exists_eq_append_trimChars s.toList
  refine read_of_blanks hfront hback ?_ h
  rw [Text.trim, String.toList_ofList, ← hs]

/-- Blanks are no tokens, and what has no tokens is blank. -/
theorem tokensOf_eq_nil_iff (h : Whole (tokensOf s)) :
    tokensOf s = [] ↔ Text.allBlank s = true := by
  rw [tokensOf_eq] at h ⊢
  rw [Text.allBlank, List.all_eq_true]
  constructor
  · intro hnil c hc
    rcases Scan.isSpace_of_finish_eq_nil hnil c hc with rfl | rfl | rfl | rfl <;> rfl
  · intro hblank
    have hend : Whole (scanChars (s.toList ++ [])) := by rwa [List.append_nil]
    have hstart := Scan.feed_blanks hblank hend
    rw [scanChars, hstart]
    rfl

theorem tokensOf_ne_nil (h : read s = .ok value) : tokensOf s ≠ [] := by
  obtain ⟨outline, json, houtline, -⟩ := read_eq_ok_iff.1 h
  intro hnil
  rw [hnil] at houtline
  cases houtline

theorem allBlank_of_read (h : read s = .ok value) : Text.allBlank s = false := by
  have hiff := tokensOf_eq_nil_iff (whole_of_read h)
  simpa [tokensOf_ne_nil h] using hiff

/-- Whole tokens start with a character that one may start with. -/
theorem head?_dropBlanks_ne (h : Whole (tokensOf s)) {c : Char}
    (hfail : Scan.start.pushBetween (.char c) = Scan.start.fail false) :
    (Text.dropBlanks s.toList).head? ≠ some c := by
  intro hhead
  obtain ⟨rest, hs⟩ := List.head?_eq_some_iff.1 hhead
  have hsplit : s.toList = s.toList.takeWhile Text.isBlank ++ c :: rest := by
    rw [← hs, Text.dropBlanks, List.takeWhile_append_dropWhile]
  rw [tokensOf_eq, hsplit, scanChars] at h
  have hstart : Scan.start.feed (s.toList.takeWhile Text.isBlank) = Scan.start :=
    Scan.feed_blanks (fun c hc => List.mem_takeWhile_imp hc) h
  have hpush : Scan.start.push (.char c) = Scan.start.fail false := hfail
  rw [Scan.feed_append, hstart, Scan.feed_cons, hpush] at h
  exact Scan.not_whole_finish_feed (Scan.not_whole_fail Scan.start false) rest h

/-! ### Lines -/

/-- Lines that break a text between tokens make it up again, with as many tokens. -/
theorem tokensOf_intercalate {lines : List String} (h : Whole (lines.flatMap tokensOf)) :
    tokensOf ("\n".intercalate lines) = lines.flatMap tokensOf := by
  induction lines with
  | nil => rfl
  | cons line rest ih =>
    rw [List.flatMap_cons, whole_append] at h
    cases rest with
    | nil => simp
    | cons next rest =>
      have hlist : ("\n".intercalate (line :: next :: rest)).toList =
          line.toList ++ '\n' :: ("\n".intercalate (next :: rest)).toList := by
        simp [String.intercalate_cons_cons]
      rw [tokensOf_eq] at h
      rw [List.flatMap_cons, ← ih h.2, tokensOf_eq, hlist,
        scanChars_append_space h.1 (.inr (.inl rfl)), tokensOf_eq, tokensOf_eq]

end CampusQuery.Json
