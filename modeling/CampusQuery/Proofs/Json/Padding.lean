import CampusQuery.Proofs.Json.Prefixes
/-!
Texts with blanks at the ends of their last line.

Blanks between whole tokens are white space or cannot stand there at all. Inside a token they may
only stand in a string that is not closed, which they leave as open as it was. So blanks at the ends
of the last line have no effect on what a text is read as, or make it one that cannot become JSON.
-/

namespace CampusQuery.Json

/-! ### Texts that cannot become JSON -/

/-- A token that has not been broken off by the end of the text. -/
def Token.Settled (t : Token) : Prop :=
  ∀ inString, t ≠ .broken inString .endedEarly

theorem Reading.eq_of_push_eq_error {rules : Rules} {reading : Reading} {t : Token}
    {error : ReadError} (h : reading.push rules t = .error error) :
    error = .malformed ∨ ∃ inString, t = .broken inString error := by
  unfold push pushKey pushValue at h
  grind

theorem Outline.foldlM_push_eq_malformed {rules : Rules} {tokens : List Token}
    (hbroken : ¬ Whole tokens) (hsettled : ∀ t ∈ tokens, t.Settled) (reading : Reading) :
    tokens.foldlM (Reading.push rules) reading = .error .malformed := by
  induction tokens generalizing reading with
  | nil => exact absurd nofun hbroken
  | cons t tokens ih =>
    rw [List.forall_mem_cons] at hsettled
    rw [List.foldlM_cons]
    cases hpush : reading.push rules t with
    | error error =>
      rcases Reading.eq_of_push_eq_error hpush with rfl | ⟨inString, rfl⟩
      · rfl
      · cases error with
        | malformed => rfl
        | endedEarly => exact absurd rfl (hsettled.1 inString)
    | ok behind =>
      refine ih (fun hwhole => hbroken fun inString error hmem => ?_) hsettled.2 behind
      rcases List.mem_cons.1 hmem with rfl | hmem
      · exact Reading.push_broken_ne_ok rules reading inString error behind hpush
      · exact hwhole inString error hmem

/-- A text with a token that does not go on as one, and not just for its end, is malformed. -/
theorem read_eq_malformed {s : String} (hbroken : ¬ Whole (tokensOf s))
    (hsettled : ∀ t ∈ tokensOf s, t.Settled) : read s = .error .malformed := by
  unfold tokensOf at hbroken hsettled
  rw [read, readUnder, Outline.ofTokens, Outline.foldlM_push_eq_malformed hbroken hsettled]
  rfl

/-! ### Strings that are not closed -/

/-- A character that is no digit spoils a number. -/
theorem hexNumber?_eq_none {digits : List Char} {c : Char} (hc : c ∈ digits)
    (hdigit : hexValue? c = none) : hexNumber? digits = none := by
  obtain ⟨front, back, rfl⟩ := List.append_of_mem hc
  rw [hexNumber?, List.foldlM_append, Option.bind_eq_bind, Option.bind_eq_none_iff]
  intro n _
  rw [List.foldlM_cons, hdigit]
  rfl

namespace StringPart

variable {part part' : StringPart} {c : Symbol}

theorem text_eq_none_of_pushPlain (h : part.pushPlain c = .more part') (hpart : part.text = none) :
    part'.text = none := by
  cases c with
  | stray =>
    cases h
    rfl
  | char c =>
    unfold pushPlain at h
    dsimp only at h
    split_ifs at h
    · cases h
      exact hpart
    · cases h
      simp [add, hpart]

theorem text_eq_none_of_pushEscape (h : part.pushEscape c = .more part')
    (hpart : part.text = none) : part'.text = none := by
  cases c with
  | stray => cases h
  | char c =>
    unfold pushEscape at h
    dsimp only at h
    split_ifs at h
    · cases h
      exact hpart
    · split at h
      · cases h
        simp [add, hpart]
      · cases h

theorem text_addUnit_eq_none (hpart : part.text = none) (lead : Option Nat) (unit : Nat) :
    (part.addUnit lead unit).text = none := by
  unfold addUnit
  cases lead <;> dsimp only <;> split_ifs <;> simp [add, spoiled, hpart]

/-- What has stood for no character is never forgotten. -/
theorem text_eq_none_of_push (h : part.push c = .more part') (hpart : part.text = none) :
    part'.text = none := by
  unfold push at h
  split at h
  · exact text_eq_none_of_pushPlain h hpart
  · exact text_eq_none_of_pushEscape h hpart
  · split_ifs at h
    · cases h
      exact hpart
    · exact text_eq_none_of_pushPlain h rfl
  · split_ifs at h
    · cases h
      exact hpart
    · exact text_eq_none_of_pushEscape h rfl
  · dsimp only at h
    split_ifs at h
    · cases h
      exact hpart
    · split at h
      · cases h
        exact text_addUnit_eq_none hpart _ _
      · cases h

/-- The four bytes behind `\u` are being read, and one of them is no digit. -/
inductive AwaitsBytes : StringPart → Nat → Prop
  | mk (text : Option (List Char)) (lead : Option Nat) {digits : List Char} {bytes : Nat}
      (hdigits : '\n' ∈ digits) (hbytes : bytes < 4) :
      AwaitsBytes ⟨text, .unicode lead digits bytes⟩ bytes

/-- A line feed in a string can only be one of the bytes behind `\u`. -/
theorem awaitsBytes_of_push (h : part.push (.char '\n') = .more part') :
    ∃ bytes, part'.AwaitsBytes bytes := by
  have hplain (part : StringPart) : part.pushPlain (.char '\n') = .bad := by
    simp [pushPlain]
  have hescape (part : StringPart) : part.pushEscape (.char '\n') = .bad := by
    simp [pushEscape, shortEscape?]
  unfold push at h
  split at h
  · rw [hplain] at h
    cases h
  · rw [hescape] at h
    cases h
  · rw [if_neg (by decide), hplain] at h
    cases h
  · rw [if_neg (by decide), hescape] at h
    cases h
  · next lead digits bytes _ =>
    dsimp only at h
    split_ifs at h with hbytes
    · cases h
      exact ⟨_, .mk part.text lead List.mem_cons_self hbytes⟩
    · rw [hexNumber?_eq_none (List.mem_reverse.2 List.mem_cons_self) (by decide)] at h
      cases h

/-- As many bytes as there is room for are read, and one more fails. -/
theorem AwaitsBytes.push {bytes : Nat} (h : part.AwaitsBytes bytes) (c : Char) :
    if bytes + c.utf8Size < 4 then
      ∃ part', part.push (.char c) = .more part' ∧ part'.text = part.text ∧
        part'.AwaitsBytes (bytes + c.utf8Size)
    else part.push (.char c) = .bad := by
  obtain ⟨text, lead, hdigits, -⟩ := h
  split_ifs with hbytes
  · exact ⟨_, if_pos hbytes, rfl, .mk text lead (List.mem_cons_of_mem c hdigits) hbytes⟩
  · have hnone :=
      hexNumber?_eq_none (List.mem_reverse.2 (List.mem_cons_of_mem c hdigits)) (by decide)
    simp only [StringPart.push, if_neg hbytes, hnone]

end StringPart

namespace Scan

variable {s : Scan}

theorem feed_of_failed (h : s.mode = .failed) (text : List Char) : s.feed text = s := by
  induction text with
  | nil => rfl
  | cons c text ih =>
    have hpush : s.push (.char c) = s := by
      unfold push
      rw [h]
    rw [feed_cons, hpush, ih]

/-- Bytes behind `\u` that cannot be digits leave the string open, or are too many. -/
theorem feed_of_awaitsBytes {ts : List Token} {part : StringPart} {bytes : Nat}
    (h : part.AwaitsBytes bytes) (text : List Char) :
    if bytes + (text.map Char.utf8Size).sum < 4 then
      (feed ⟨ts, .string part⟩ text).finish = finish ⟨ts, .string part⟩
    else (feed ⟨ts, .string part⟩ text).mode = .failed := by
  induction text generalizing part bytes with
  | nil =>
    obtain ⟨text, lead, hdigits, hbytes⟩ := h
    exact (if_pos hbytes).mpr rfl
  | cons c text ih =>
    have hpush := h.push c
    rw [List.map_cons, List.sum_cons, ← Nat.add_assoc, feed_cons, push]
    dsimp only
    split_ifs at hpush with hc
    · obtain ⟨part', hmore, htext, hpart'⟩ := hpush
      have hsame : finish ⟨ts, .string part'⟩ = finish ⟨ts, .string part⟩ := by
        simp only [finish, StringPart.token, htext]
      rw [hmore, ← hsame]
      exact ih hpart'
    · rw [hpush, if_neg (by omega)]
      exact congrArg Scan.mode (feed_of_failed (s := fail ⟨ts, .string part⟩ true) rfl text)

theorem emits_settled : Emits Token.Settled where
  mark := by simp [marks, Token.Settled]
  word := by simp [words, Token.Settled]
  number n c h := by
    have hcomplete := Numeral.complete_of_push_eq_over h
    unfold Numeral.Complete at hcomplete
    unfold Numeral.token Token.Settled
    rcases hcomplete with h | h | h | h <;> simp [h]
  string value := by simp [Token.Settled]
  broken inString := by simp [Token.Settled]

theorem settled_feed_start (text : List Char) : (start.feed text).Every Token.Settled := by
  have hfold : start.feed text = (text.map Symbol.char).foldl push start := List.foldl_map.symm
  rw [hfold]
  exact Every.start.foldl_push emits_settled _

/-- The text cannot become JSON: one of its tokens does not go on, and not just for its end. -/
def Hopeless (tokens : List Token) : Prop :=
  ¬ Whole tokens ∧ ∀ t ∈ tokens, t.Settled

theorem hopeless_of_failed {text : List Char} (h : (start.feed text).mode = .failed) :
    Hopeless (scanChars text) := by
  have hfinish : scanChars text = (start.feed text).tokens.reverse := by rw [scanChars, finish, h]
  rw [hfinish]
  constructor
  · intro hwhole
    refine (Sound.start.feed text).failed h fun inString error hmem => ?_
    exact hwhole inString error (List.mem_reverse.2 hmem)
  · exact fun t ht => (settled_feed_start text).tokens t (List.mem_reverse.1 ht)

/-! ### Blanks -/

/-- What blanks do to the tokens of a text: nothing, or they fail, or they stand in a string that is
not closed, and may only do harm there. -/
theorem finish_feed_blanks (hs : s.Sound) {blanks : List Char}
    (hblanks : ∀ c ∈ blanks, Text.isBlank c = true) :
    (s.feed blanks).finish = s.finish ∨ (s.feed blanks).mode = .failed ∨
      ∃ part part' : StringPart, s.mode = .string part ∧ (part.text = none → part'.text = none) ∧
        (s.feed blanks).finish = finish ⟨s.tokens, .string part'⟩ := by
  induction blanks generalizing s with
  | nil => exact .inl rfl
  | cons c blanks ih =>
    rw [List.forall_mem_cons] at hblanks
    have hrest := ih (hs.push (.char c)) hblanks.2
    have htakes := takesBlank hs hblanks.1
    rw [feed_cons]
    generalize s.push (.char c) = s' at hrest htakes ⊢
    cases htakes with
    | passed hholds =>
      rcases hrest with hsame | hfailed | ⟨part, _, hmode, -⟩
      · exact .inl (hsame.trans hholds.finish.symm)
      · exact .inr (.inl hfailed)
      · cases hmode
    | @kept part middle hmode hpush =>
      have hmiddle := StringPart.text_eq_none_of_push hpush
      rcases hrest with hsame | hfailed | ⟨_, part', hmode', htext, hfinish⟩
      · exact .inr (.inr ⟨part, middle, hmode, hmiddle, hsame⟩)
      · exact .inr (.inl hfailed)
      · cases hmode'
        exact .inr (.inr ⟨part, part', hmode, fun h => htext (hmiddle h), hfinish⟩)
    | failed hmode =>
      rw [feed_of_failed hmode]
      exact .inr (.inl hmode)

end Scan

open Scan

/-- Blanks behind a text have no effect, or it cannot become JSON with them. -/
theorem scanChars_append_blanks (text : List Char) {blanks : List Char}
    (hblanks : ∀ c ∈ blanks, Text.isBlank c = true) :
    scanChars (text ++ blanks) = scanChars text ∨ Hopeless (scanChars (text ++ blanks)) := by
  have hcases := finish_feed_blanks (Sound.start.feed text) hblanks
  rw [← feed_append] at hcases
  rcases hcases with hsame | hfailed | ⟨part, part', hmode, htext, hfinish⟩
  · exact .inl hsame
  · exact .inr (hopeless_of_failed hfailed)
  · have hlong : scanChars (text ++ blanks) = finish ⟨(start.feed text).tokens, .string part'⟩ :=
      hfinish
    have hshort : scanChars text = finish ⟨(start.feed text).tokens, .string part⟩ := by
      rw [← hmode]
      rfl
    rw [hlong, hshort]
    cases hpart' : part'.text with
    | some l =>
      have hpart : part.text.isSome = true := by
        cases hpart : part.text with
        | some _ => rfl
        | none =>
          rw [htext hpart] at hpart'
          cases hpart'
      exact .inl (by simp [finish, StringPart.token, hpart, hpart'])
    | none =>
      refine .inr ⟨not_whole_inString _ part', fun t ht => ?_⟩
      simp only [finish, StringPart.token, hpart', List.mem_reverse, List.mem_cons] at ht
      rcases ht with rfl | ht
      · simp [Token.Settled]
      · exact (settled_feed_start text).tokens t ht

namespace Scan

/-- Blanks between tokens are white space or fail. -/
theorem feed_between_blanks (ts : List Token) {blanks : List Char}
    (hblanks : ∀ c ∈ blanks, Text.isBlank c = true) :
    feed ⟨ts, .between⟩ blanks = ⟨ts, .between⟩ ∨ (feed ⟨ts, .between⟩ blanks).mode = .failed := by
  induction blanks with
  | nil => exact .inl rfl
  | cons c blanks ih =>
    rw [List.forall_mem_cons] at hblanks
    rw [feed_cons]
    by_cases hspace : IsSpace c
    · have hpush : push ⟨ts, .between⟩ (.char c) = ⟨ts, .between⟩ := if_pos hspace
      rw [hpush]
      exact ih hblanks.2
    · have hpush : push ⟨ts, .between⟩ (.char c) = fail ⟨ts, .between⟩ false :=
        pushBetween_of_not_isSpace _ hblanks.1 hspace
      rw [hpush, feed_of_failed rfl]
      exact .inr rfl

/-- Where a text can stand at the start of a line. -/
inductive AtLine : Scan → Prop
  | between (ts : List Token) : AtLine ⟨ts, .between⟩
  | inString (ts : List Token) {part : StringPart} {bytes : Nat} (h : part.AwaitsBytes bytes) :
      AtLine ⟨ts, .string part⟩
  | failed {s : Scan} (h : s.mode = .failed) : AtLine s

theorem atLine_feed_lineFeed (front : List Char) : (start.feed (front ++ ['\n'])).AtLine := by
  rw [feed_append, feed_cons, feed_nil]
  have htakes := takesBlank (Sound.start.feed front) (c := '\n') (by decide)
  generalize (start.feed front).push (.char '\n') = s at htakes ⊢
  cases htakes with
  | passed => exact .between _
  | kept _ hpush =>
    obtain ⟨bytes, hbytes⟩ := StringPart.awaitsBytes_of_push hpush
    exact .inString _ hbytes
  | failed hmode => exact .failed hmode

end Scan

section

variable {before front text back : List Char}

theorem scanChars_append {s : Scan} (hs : start.feed before = s) (rest : List Char) :
    scanChars (before ++ rest) = (s.feed rest).finish := by
  rw [scanChars, feed_append, hs]

/-- Blanks at both ends of the last line have no effect, or make a text that cannot become JSON. -/
theorem scanChars_padded (hbefore : (start.feed before).AtLine)
    (hfront : ∀ c ∈ front, Text.isBlank c = true) (hback : ∀ c ∈ back, Text.isBlank c = true) :
    scanChars (before ++ (front ++ text ++ back)) = scanChars (before ++ text) ∨
      Hopeless (scanChars (before ++ (front ++ text ++ back))) := by
  generalize hs : start.feed before = s at hbefore
  cases hbefore with
  | failed hmode =>
    refine .inl ?_
    rw [scanChars_append hs, scanChars_append hs, feed_of_failed hmode, feed_of_failed hmode]
  | between ts =>
    rcases feed_between_blanks ts hfront with hsame | hfailed
    · have htext : scanChars (before ++ (front ++ text)) = scanChars (before ++ text) := by
        rw [scanChars_append hs, scanChars_append hs, feed_append, hsame]
      rw [← htext, ← List.append_assoc before]
      exact scanChars_append_blanks _ hback
    · refine .inr (hopeless_of_failed ?_)
      rw [feed_append, hs, feed_append, feed_append, feed_of_failed hfailed,
        feed_of_failed hfailed, hfailed]
  | inString ts hpart =>
    -- Where the padded line leaves the `\u` short of bytes, so does the line without the blanks.
    have hlong := @feed_of_awaitsBytes ts _ _ hpart (front ++ text ++ back)
    have hshort := @feed_of_awaitsBytes ts _ _ hpart text
    rw [← hs, ← feed_append] at hlong hshort
    simp only [List.map_append, List.sum_append] at hlong
    split_ifs at hlong with hbytes
    · rw [if_pos (by omega)] at hshort
      exact .inl (hlong.trans hshort.symm)
    · exact .inr (hopeless_of_failed hlong)

/-- White space at both ends of the last line has no effect if the text breaks off in no token. -/
theorem scanChars_padded_of_whole (hbefore : (start.feed before).AtLine)
    (hwhole : Whole (scanChars (before ++ text))) (hfront : ∀ c ∈ front, IsSpace c)
    (hback : ∀ c ∈ back, IsSpace c) :
    scanChars (before ++ (front ++ text ++ back)) = scanChars (before ++ text) := by
  generalize hs : start.feed before = s at hbefore
  cases hbefore with
  | failed hmode =>
    rw [scanChars_append hs, scanChars_append hs, feed_of_failed hmode, feed_of_failed hmode]
  | between ts =>
    have hsame : feed ⟨ts, .between⟩ front = ⟨ts, .between⟩ :=
      (feed_after start ts front).trans (by rw [feed_start_spaces hfront]; rfl)
    have hholds := (holds_feed hwhole).feed_spaces hback
    rw [feed_append, hs] at hholds
    rw [scanChars_append hs, feed_append, feed_append, hsame, hholds.finish, List.reverse_reverse]
  | inString ts hpart =>
    have hfeed := @feed_of_awaitsBytes ts _ _ hpart text
    rw [← hs, ← feed_append] at hfeed
    split_ifs at hfeed
    · rw [scanChars, hfeed, hs] at hwhole
      exact absurd hwhole (not_whole_inString ts _)
    · exact absurd hwhole (hopeless_of_failed hfeed).1

end

end CampusQuery.Json
