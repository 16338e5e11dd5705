import CampusQuery.Proofs.Json.RoundTrip
import CampusQuery.Proofs.Text
/-!
Texts that are broken between tokens.

White space between the tokens of a text neither adds tokens nor takes any away, so the parts of a
text that is broken there have together the tokens of the whole. A value is not complete before the
last of its tokens: any fewer of them end too early.
-/

namespace CampusQuery.Json

/-! ### White space -/

/-- The white space of JSON. -/
def IsSpace (c : Char) : Prop :=
  c = ' ' ∨ c = '\n' ∨ c = '\r' ∨ c = '\t'

theorem IsSpace.ends {c : Char} (h : IsSpace c) : Numeral.Ends c := by
  rcases h with rfl | rfl | rfl | rfl <;> exact ⟨rfl, by decide, by decide, by decide⟩

theorem ne_of_isBlank {c d : Char} (hc : Text.isBlank c = true) (hd : Text.isBlank d = false) :
    c ≠ d := by
  rintro rfl
  rw [hc] at hd
  cases hd

theorem isDigit_of_isBlank {c : Char} (hc : Text.isBlank c = true) : c.isDigit = false := by
  cases hdigit : c.isDigit with
  | false => rfl
  | true =>
    have hrange : 48 ≤ c.toNat ∧ c.toNat ≤ 57 := by
      simpa [Char.isDigit, UInt32.le_iff_toNat_le] using hdigit
    simp [Text.isBlank] at hc
    omega

theorem start?_of_isBlank {c : Char} (hc : Text.isBlank c = true) : Numeral.start? c = none := by
  have hsign : c ≠ '-' := ne_of_isBlank hc (by decide)
  rw [Numeral.start?, if_neg hsign, Numeral.digit?_eq_none (isDigit_of_isBlank hc), Option.map_none]

/-- What does not go on with a number and does not end it too early comes behind a complete one. -/
theorem Numeral.complete_of_push_eq_over {n : Numeral} {c : Char} (h : n.push c = .over) :
    n.Complete := by
  unfold push at h
  unfold Complete
  cases hstage : n.stage with
  | zero | whole | places | exponent => simp
  | sign | point | exponentSign =>
    simp only [hstage] at h
    split at h <;> cases h
  | exponentMark =>
    simp only [hstage] at h
    split at h
    · cases h
    · split_ifs at h

theorem Numeral.push_ne_more {n n' : Numeral} {c : Char} (hc : Text.isBlank c = true) :
    n.push c ≠ .more n' := by
  have hne {d : Char} (hd : Text.isBlank d = false) : c ≠ d := ne_of_isBlank hc hd
  have hdigit : digit? c = none := digit?_eq_none (isDigit_of_isBlank hc)
  unfold push
  rw [hdigit, if_neg (hne (d := '.') rfl), if_neg (hne (d := '+') rfl), if_neg (hne (d := '-') rfl)]
  cases n.stage <;> simp [hne (d := 'e') rfl, hne (d := 'E') rfl]

theorem StringPart.eq_quote_of_push_eq_closed {part : StringPart} {c : Char} {value : Option String}
    (h : part.push (.char c) = .closed value) : c = '"' := by
  grind [push, pushPlain, pushEscape]

/-- A blank that is no white space of JSON stands between no tokens. -/
theorem Scan.pushBetween_of_not_isSpace (s : Scan) {c : Char} (hblank : Text.isBlank c = true)
    (hspace : ¬ IsSpace c) : s.pushBetween (.char c) = s.fail false := by
  have hne {d : Char} (hd : Text.isBlank d = false) : c ≠ d := ne_of_isBlank hblank hd
  unfold IsSpace at hspace
  unfold pushBetween
  dsimp only
  rw [if_neg hspace, if_neg (hne rfl), if_neg (hne rfl), if_neg (hne rfl), if_neg (hne rfl),
    if_neg (hne rfl), if_neg (hne rfl), if_neg (hne rfl), if_neg (hne rfl), if_neg (hne rfl),
    if_neg (hne rfl), start?_of_isBlank hblank]

/-! ### Tokens that are whole -/

/-- None of the tokens is broken off. -/
def Whole (tokens : List Token) : Prop :=
  ∀ inString error, .broken inString error ∉ tokens

theorem whole_append {tokens others : List Token} :
    Whole (tokens ++ others) ↔ Whole tokens ∧ Whole others := by
  simp only [Whole, List.mem_append, not_or, forall_and]

namespace Scan

variable {s : Scan} {ts : List Token}

theorem not_whole_inString (ts : List Token) (part : StringPart) :
    ¬ Whole (finish ⟨ts, .string part⟩) := by
  intro h
  refine h true (if part.text.isSome then .endedEarly else .malformed) ?_
  simp [finish, StringPart.token]

/-- A text that cannot go on has a broken token, and words are not of blanks. -/
structure Sound (s : Scan) : Prop where
  failed : s.mode = .failed → ¬ Whole s.tokens
  word : ∀ rest token, s.mode = .word rest token → ∀ c ∈ rest, Text.isBlank c = false

namespace Sound

theorem emit (s : Scan) (t : Token) : (s.emit t).Sound :=
  ⟨nofun, nofun⟩

theorem fail (s : Scan) (inString : Bool) : (s.fail inString).Sound :=
  ⟨fun _ h => h inString .malformed List.mem_cons_self, nofun⟩

theorem between (s : Scan) : Sound { s with mode := .between } :=
  ⟨nofun, nofun⟩

theorem inNumber (s : Scan) (n : Numeral) : Sound { s with mode := .number n } :=
  ⟨nofun, nofun⟩

theorem inString (s : Scan) (part : StringPart) : Sound { s with mode := .string part } :=
  ⟨nofun, nofun⟩

theorem inWord (s : Scan) {rest : List Char} (hrest : ∀ c ∈ rest, Text.isBlank c = false)
    (t : Token) : Sound { s with mode := .word rest t } := by
  refine ⟨nofun, ?_⟩
  rintro _ _ ⟨⟩
  exact hrest

theorem ite {p : Prop} [Decidable p] {s s' : Scan} (h : s.Sound) (h' : s'.Sound) :
    (if p then s else s').Sound :=
  iteInduction (fun _ => h) fun _ => h'

theorem pushBetween (s : Scan) (c : Symbol) : (s.pushBetween c).Sound := by
  cases c with
  | stray => exact fail s false
  | char c =>
    have hword : ∀ word ∈ words, ∀ c ∈ word.1, Text.isBlank c = false := by
      simp [words, Text.isBlank]
    exact pushBetween_cases s c (fun _ => between s) (fun t _ => emit s t) (inString s .empty)
      (fun word hmem => inWord s (hword word hmem) word.2) (inNumber s) (fail s false)

theorem push (h : s.Sound) (c : Symbol) : (s.push c).Sound := by
  unfold Scan.push
  split
  · exact pushBetween s c
  · next rest token hmode =>
    cases rest with
    | nil => exact fail s false
    | cons letter rest =>
      have hrest := List.forall_mem_cons.1 (h.word _ _ hmode)
      exact (fail s false).ite ((emit s token).ite (inWord s hrest.2 token))
  · next n hmode =>
    cases c with
    | stray => exact fail s false
    | char c =>
      simp only
      split
      · exact inNumber s _
      · exact pushBetween _ _
      · exact fail s false
  · next part hmode =>
    cases part.push c with
    | more part => exact inString s part
    | closed value => exact emit s _
    | bad => exact fail s true
  · exact h

theorem feed (h : s.Sound) (text : List Char) : (s.feed text).Sound := by
  induction text generalizing s with
  | nil => exact h
  | cons c text ih => exact ih (h.push (.char c))

theorem start : Scan.start.Sound :=
  ⟨nofun, nofun⟩

/-- A text whose tokens are all whole ends with the last of them. -/
theorem holds (h : s.Sound) (hwhole : Whole s.finish) : s.Holds s.finish.reverse := by
  obtain ⟨tokens, mode⟩ := s
  cases mode with
  | between => exact .inl (by simp [finish])
  | word rest token =>
    refine absurd ?_ (hwhole false .endedEarly)
    simp [finish]
  | number n =>
    have htoken : ∀ inString error, n.token ≠ .broken inString error := by
      intro inString error heq
      refine hwhole inString error ?_
      simp [finish, heq]
    refine .inr ⟨n, tokens, ?_, rfl, by simp [finish]⟩
    unfold Numeral.token at htoken
    unfold Numeral.Complete
    cases hstage : n.stage <;> simp [hstage] at htoken ⊢
  | string part => exact absurd hwhole (not_whole_inString tokens part)
  | failed =>
    have hbroken := h.failed rfl
    refine absurd ?_ hbroken
    intro inString error hmem
    exact hwhole inString error (by simpa [finish] using hmem)

end Sound

/-! ### Tokens that are there already -/

/-- The scan with tokens behind which it comes. -/
def after (s : Scan) (ts : List Token) : Scan :=
  ⟨s.tokens ++ ts, s.mode⟩

theorem pushBetween_after (s : Scan) (ts : List Token) (c : Symbol) :
    (s.after ts).pushBetween c = (s.pushBetween c).after ts := by
  cases c with
  | stray => rfl
  | char c =>
    unfold pushBetween
    simp only [apply_ite fun s => after s ts]
    cases Numeral.start? c <;> rfl

/-- What happens to a text does not depend on the tokens before it. -/
theorem push_after (s : Scan) (ts : List Token) (c : Symbol) :
    (s.after ts).push c = (s.push c).after ts := by
  obtain ⟨tokens, mode⟩ := s
  cases mode with
  | between => exact pushBetween_after ⟨tokens, .between⟩ ts c
  | word rest token =>
    cases rest with
    | nil => rfl
    | cons letter rest =>
      simp only [push, after]
      split_ifs <;> rfl
  | number n =>
    cases c with
    | stray => rfl
    | char c =>
      simp only [push, after]
      split
      · rfl
      · exact pushBetween_after (emit ⟨tokens, .number n⟩ n.token) ts (.char c)
      · rfl
  | string part =>
    simp only [push, after]
    split <;> rfl
  | failed => rfl

theorem feed_after (s : Scan) (ts : List Token) (text : List Char) :
    (s.after ts).feed text = (s.feed text).after ts := by
  induction text generalizing s with
  | nil => rfl
  | cons c text ih => rw [feed_cons, push_after, ih, feed_cons]

theorem finish_after (s : Scan) (ts : List Token) :
    (s.after ts).finish = ts.reverse ++ s.finish := by
  obtain ⟨tokens, mode⟩ := s
  cases mode <;> simp [finish, after]

/-- Between tokens, the rest of a text adds its own tokens. -/
theorem finish_feed_between (ts : List Token) (text : List Char) :
    (feed ⟨ts, .between⟩ text).finish = ts.reverse ++ (start.feed text).finish := by
  rw [← finish_after, ← feed_after]
  rfl

theorem not_whole_finish_feed (h : ¬ Whole s.tokens) (text : List Char) :
    ¬ Whole (s.feed text).finish := by
  have hs : s = after ⟨[], s.mode⟩ s.tokens := rfl
  rw [hs, feed_after, finish_after, whole_append]
  rintro ⟨htokens, -⟩
  refine h fun inString error hmem => htokens inString error ?_
  exact List.mem_reverse.2 hmem

theorem not_whole_fail (s : Scan) (inString : Bool) : ¬ Whole (s.fail inString).tokens :=
  fun h => h inString .malformed List.mem_cons_self

/-- Blanks before whole tokens are white space, which leaves no trace. -/
theorem feed_blanks {blanks : List Char} (hblanks : ∀ c ∈ blanks, Text.isBlank c = true)
    {text : List Char} (h : Whole (start.feed (blanks ++ text)).finish) :
    start.feed blanks = start := by
  induction blanks with
  | nil => rfl
  | cons c blanks ih =>
    rw [List.forall_mem_cons] at hblanks
    by_cases hspace : IsSpace c
    · have hpush : start.push (.char c) = start := if_pos hspace
      rw [List.cons_append, feed_cons, hpush] at h
      rw [feed_cons, hpush, ih hblanks.2 h]
    · have hpush : start.push (.char c) = start.fail false :=
        pushBetween_of_not_isSpace start hblanks.1 hspace
      rw [List.cons_append, feed_cons, hpush] at h
      exact absurd h (not_whole_finish_feed (not_whole_fail start false) _)

theorem finish_after_ne_nil (s : Scan) {ts : List Token} (hts : ts ≠ []) :
    (s.after ts).finish ≠ [] := by
  rw [finish_after]
  simp [hts]

/-- A text that has started with tokens goes on to have some. -/
theorem finish_push_ne_nil (h : s.finish ≠ []) (c : Symbol) : (s.push c).finish ≠ [] := by
  by_cases htokens : s.tokens = []
  · obtain ⟨tokens, mode⟩ := s
    obtain rfl : tokens = [] := htokens
    cases mode with
    | between => exact absurd rfl h
    | word rest token =>
      cases rest with
      | nil => simp [push, fail, finish]
      | cons letter rest =>
        simp only [push]
        split_ifs <;> simp [fail, emit, finish]
    | number n =>
      cases c with
      | stray => simp [push, fail, finish]
      | char c =>
        simp only [push]
        split
        · simp [finish]
        · have hafter : emit ⟨[], .number n⟩ n.token = after ⟨[], .between⟩ [n.token] := rfl
          rw [hafter, pushBetween_after]
          exact finish_after_ne_nil _ (List.cons_ne_nil _ _)
        · simp [fail, finish]
    | string part =>
      simp only [push]
      split <;> simp [fail, emit, finish]
    | failed => exact absurd rfl h
  · have hs : s = after ⟨[], s.mode⟩ s.tokens := rfl
    rw [hs, push_after]
    exact finish_after_ne_nil _ htokens

theorem finish_feed_ne_nil (h : s.finish ≠ []) (text : List Char) : (s.feed text).finish ≠ [] := by
  induction text generalizing s with
  | nil => exact h
  | cons c text ih => exact ih (finish_push_ne_nil h (.char c))

/-- A character that is no white space starts a token, even if it is a broken one. -/
theorem finish_pushBetween_ne_nil {c : Char} (hc : ¬ IsSpace c) :
    (start.pushBetween (.char c)).finish ≠ [] := by
  have hmode {mode : Mode} (hne : mode ≠ .between) (hne' : mode ≠ .failed) :
      finish ⟨[], mode⟩ ≠ [] := by
    cases mode with
    | between => exact absurd rfl hne
    | failed => exact absurd rfl hne'
    | _ => simp [finish]
  refine pushBetween_cases (P := fun s => s.finish ≠ []) start c (fun hspace => absurd hspace hc)
    (fun t _ => ?_) (hmode nofun nofun) (fun word _ => hmode nofun nofun)
    (fun n => hmode nofun nofun) ?_
  · simp [emit, finish]
  · simp [fail, finish]

/-- A text without tokens is white space. -/
theorem isSpace_of_finish_eq_nil {text : List Char} (h : (start.feed text).finish = []) :
    ∀ c ∈ text, IsSpace c := by
  induction text with
  | nil => simp
  | cons c text ih =>
    by_cases hspace : IsSpace c
    · have hpush : start.push (.char c) = start := if_pos hspace
      rw [feed_cons, hpush] at h
      exact List.forall_mem_cons.2 ⟨hspace, ih h⟩
    · exact absurd h (finish_feed_ne_nil (finish_pushBetween_ne_nil hspace) text)

theorem holds_between_iff {tokens : List Token} : Holds ⟨tokens, .between⟩ ts ↔ ts = tokens := by
  constructor
  · rintro (heq | ⟨n, done, -, heq, -⟩)
    · cases heq
      rfl
    · cases heq
  · rintro rfl
    exact .inl rfl

/-- What a blank does: behind a whole token it can be white space, in a string it may stand, and
elsewhere nothing can follow. -/
inductive TakesBlank (s : Scan) (c : Char) : Scan → Prop
  | passed {ts : List Token} (h : s.Holds ts) (hspace : IsSpace c) : TakesBlank s c ⟨ts, .between⟩
  | kept {part part' : StringPart} (h : s.mode = .string part)
      (hpush : part.push (.char c) = .more part') : TakesBlank s c ⟨s.tokens, .string part'⟩
  | failed {s' : Scan} (h : s'.mode = .failed) : TakesBlank s c s'

theorem TakesBlank.pushBetween (h : s.Holds ts) {c : Char} (hc : Text.isBlank c = true) :
    TakesBlank s c (Scan.pushBetween ⟨ts, .between⟩ (.char c)) := by
  by_cases hspace : IsSpace c
  · have hpush : Scan.pushBetween ⟨ts, .between⟩ (.char c) = ⟨ts, .between⟩ := if_pos hspace
    rw [hpush]
    exact .passed h hspace
  · rw [pushBetween_of_not_isSpace _ hc hspace]
    exact .failed rfl

theorem takesBlank (hs : s.Sound) {c : Char} (hc : Text.isBlank c = true) :
    TakesBlank s c (s.push (.char c)) := by
  obtain ⟨tokens, mode⟩ := s
  cases mode with
  | between => exact .pushBetween (.inl rfl) hc
  | failed => exact .failed rfl
  | word rest token =>
    cases rest with
    | nil => exact .failed rfl
    | cons letter rest =>
      have hletter := (List.forall_mem_cons.1 (hs.word _ _ rfl)).1
      have hne : (Symbol.char c) ≠ .char letter :=
        fun heq => ne_of_isBlank hc hletter (Symbol.char.inj heq)
      simp only [push, if_pos hne]
      exact .failed rfl
  | number n =>
    simp only [push]
    split
    · next hpush => exact absurd hpush (Numeral.push_ne_more hc)
    · next hpush =>
      exact .pushBetween (.inr ⟨n, tokens, Numeral.complete_of_push_eq_over hpush, rfl, rfl⟩) hc
    · exact .failed rfl
  | string part =>
    simp only [push]
    cases hpush : part.push (.char c) with
    | more part' => exact .kept rfl hpush
    | bad => exact .failed rfl
    | closed value =>
      exact absurd (StringPart.eq_quote_of_push_eq_closed hpush) (ne_of_isBlank hc rfl)

/-- A blank behind whole tokens is white space. -/
theorem holds_of_push_blank (hs : s.Sound) {c : Char} (hc : Text.isBlank c = true)
    (h : (s.push (.char c)).Holds ts) : s.Holds ts ∧ IsSpace c := by
  have htakes := takesBlank hs hc
  generalize s.push (.char c) = s' at h htakes
  cases htakes with
  | passed hholds hspace =>
    rw [holds_between_iff] at h
    exact ⟨h ▸ hholds, hspace⟩
  | kept => rcases h with heq | ⟨n, done, -, heq, -⟩ <;> cases heq
  | failed hmode => rcases h with rfl | ⟨n, done, -, rfl, -⟩ <;> cases hmode

/-- A text is over where the blanks behind its whole tokens start. -/
theorem holds_of_feed_blanks (hs : s.Sound) {blanks : List Char}
    (hblanks : ∀ c ∈ blanks, Text.isBlank c = true) (h : (s.feed blanks).Holds ts) :
    s.Holds ts := by
  induction blanks generalizing s with
  | nil => exact h
  | cons c blanks ih =>
    rw [List.forall_mem_cons] at hblanks
    exact (holds_of_push_blank hs hblanks.1 (ih (hs.push (.char c)) hblanks.2 h)).1

theorem Holds.push_space (h : s.Holds ts) {c : Char} (hc : IsSpace c) :
    s.push (.char c) = ⟨ts, .between⟩ := by
  rw [h.push hc.ends]
  exact if_pos hc

theorem Holds.feed_spaces (h : s.Holds ts) {spaces : List Char}
    (hspaces : ∀ c ∈ spaces, IsSpace c) : (s.feed spaces).Holds ts := by
  induction spaces generalizing s with
  | nil => exact h
  | cons c spaces ih =>
    rw [List.forall_mem_cons] at hspaces
    rw [feed_cons, h.push_space hspaces.1]
    exact ih (.inl rfl) hspaces.2

theorem feed_start_spaces {spaces : List Char} (hspaces : ∀ c ∈ spaces, IsSpace c) :
    start.feed spaces = start := by
  induction spaces with
  | nil => rfl
  | cons c spaces ih =>
    rw [List.forall_mem_cons] at hspaces
    have hpush : start.push (.char c) = start := if_pos hspaces.1
    rw [feed_cons, hpush, ih hspaces.2]

end Scan

/-! ### Tokens of a text -/

/-- The tokens of characters. -/
def scanChars (text : List Char) : List Token :=
  (Scan.start.feed text).finish

theorem scan_map_char (text : List Char) : scan (text.map .char) = scanChars text := by
  rw [scan, List.foldl_map]
  rfl

theorem holds_feed {text : List Char} (h : Whole (scanChars text)) :
    (Scan.start.feed text).Holds (scanChars text).reverse :=
  (Scan.Sound.start.feed text).holds h

/-- Broken at white space between tokens, the parts of a text have together its tokens. -/
theorem scanChars_append_space {front : List Char} (hfront : Whole (scanChars front)) {c : Char}
    (hc : IsSpace c) (rest : List Char) :
    scanChars (front ++ c :: rest) = scanChars front ++ scanChars rest := by
  rw [scanChars, Scan.feed_append, Scan.feed_cons, (holds_feed hfront).push_space hc,
    Scan.finish_feed_between, List.reverse_reverse]
  rfl

/-- White space at the ends of a text adds no tokens. -/
theorem scanChars_spaces {text : List Char} (h : Whole (scanChars text)) {front back : List Char}
    (hfront : ∀ c ∈ front, IsSpace c) (hback : ∀ c ∈ back, IsSpace c) :
    scanChars (front ++ text ++ back) = scanChars text := by
  rw [scanChars, Scan.feed_append, Scan.feed_append, Scan.feed_start_spaces hfront,
    ((holds_feed h).feed_spaces hback).finish, List.reverse_reverse]

/-- Blanks at the ends of whole tokens are white space, without which the tokens are the same. -/
theorem scanChars_of_blanks {front text back : List Char}
    (hfront : ∀ c ∈ front, Text.isBlank c = true) (hback : ∀ c ∈ back, Text.isBlank c = true)
    (h : Whole (scanChars (front ++ text ++ back))) :
    scanChars text = scanChars (front ++ text ++ back) := by
  have hholds := holds_feed h
  have hstart : Scan.start.feed front = Scan.start := by
    rw [List.append_assoc] at h
    exact Scan.feed_blanks hfront h
  have hfeed : Scan.start.feed (front ++ text ++ back) = (Scan.start.feed text).feed back := by
    rw [Scan.feed_append, Scan.feed_append, hstart]
  rw [hfeed] at hholds
  have htext := Scan.holds_of_feed_blanks (Scan.Sound.start.feed text) hback hholds
  rw [scanChars, htext.finish, List.reverse_reverse]

end CampusQuery.Json
