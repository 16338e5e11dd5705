import CampusQuery.Proofs.Query.Conditions
/-!
The patterns of conditions are globs: an asterisk stands for any text, also for none, and every
other character for itself. A query may write asterisks at the ends of a pattern only, and what is
written so is matched as a glob.
-/

namespace CampusQuery.Pattern

/-- The text is one piece for each character of the pattern, the pieces of asterisks being free. -/
def Globs (pattern text : List Char) : Prop :=
  ∃ pieces : List (List Char), pieces.flatten = text ∧
    List.Forall₂ (fun c piece => c ≠ '*' → piece = [c]) pattern pieces

/-- Each asterisk is the first or the last character. -/
def AsterisksAtEnds (pattern : List Char) : Prop :=
  ∀ front back, pattern = front ++ '*' :: back → front = [] ∨ back = []

/-! ### Pieces -/

theorem globs_nil {text : List Char} : Globs [] text ↔ text = [] := by
  constructor
  · intro h
    obtain ⟨pieces, rfl, hpieces⟩ := h
    rw [List.forall₂_nil_left_iff.1 hpieces, List.flatten_nil]
  · rintro rfl
    exact ⟨[], List.flatten_nil, .nil⟩

theorem globs_cons {c : Char} {pattern text : List Char} :
    Globs (c :: pattern) text ↔
      ∃ piece rest, piece ++ rest = text ∧ (c ≠ '*' → piece = [c]) ∧ Globs pattern rest := by
  constructor
  · intro h
    obtain ⟨_, rfl, hpieces⟩ := h
    obtain ⟨piece, pieces, hpiece, hrest, rfl⟩ := List.forall₂_cons_left_iff.1 hpieces
    exact ⟨piece, pieces.flatten, List.flatten_cons.symm, hpiece, pieces, rfl, hrest⟩
  · intro h
    obtain ⟨piece, _, rfl, hpiece, pieces, rfl, hrest⟩ := h
    exact ⟨piece :: pieces, List.flatten_cons, .cons hpiece hrest⟩

/-- The pieces of two patterns stand one after the other. -/
theorem globs_append {front back text : List Char} :
    Globs (front ++ back) text ↔ ∃ s t, s ++ t = text ∧ Globs front s ∧ Globs back t := by
  induction front generalizing text with
  | nil => simp [globs_nil]
  | cons c front ih =>
    simp only [List.cons_append, globs_cons, ih]
    constructor
    · intro h
      obtain ⟨piece, _, rfl, hpiece, s, t, rfl, hs, ht⟩ := h
      exact ⟨piece ++ s, t, List.append_assoc .., ⟨piece, s, rfl, hpiece, hs⟩, ht⟩
    · intro h
      obtain ⟨_, t, rfl, ⟨piece, s, rfl, hpiece, hs⟩, ht⟩ := h
      exact ⟨piece, s ++ t, (List.append_assoc ..).symm, hpiece, s, t, rfl, hs, ht⟩

theorem globs_asterisk (text : List Char) : Globs ['*'] text :=
  globs_cons.2 ⟨text, [], List.append_nil text, fun h => absurd rfl h, globs_nil.2 rfl⟩

/-- What has no asterisk stands for itself. -/
theorem globs_of_plain {pattern text : List Char} (h : '*' ∉ pattern) :
    Globs pattern text ↔ text = pattern := by
  induction pattern generalizing text with
  | nil => exact globs_nil
  | cons c pattern ih =>
    rw [List.mem_cons, not_or] at h
    rw [globs_cons]
    constructor
    · intro hglobs
      obtain ⟨piece, rest, rfl, hpiece, hrest⟩ := hglobs
      rw [hpiece (Ne.symm h.1), (ih h.2).1 hrest, List.singleton_append]
    · rintro rfl
      exact ⟨[c], pattern, rfl, fun _ => rfl, (ih h.2).2 rfl⟩

/-! ### Open ends -/

section

variable {text v : List Char} (hplain : '*' ∉ text)
include hplain

theorem globs_open_end : Globs (text ++ ['*']) v ↔ text <+: v := by
  rw [globs_append]
  constructor
  · intro h
    obtain ⟨s, t, rfl, hs, -⟩ := h
    exact ⟨t, by rw [(globs_of_plain hplain).1 hs]⟩
  · intro h
    obtain ⟨t, rfl⟩ := h
    exact ⟨text, t, rfl, (globs_of_plain hplain).2 rfl, globs_asterisk t⟩

theorem globs_open_start : Globs ('*' :: text) v ↔ text <:+ v := by
  rw [← List.singleton_append, globs_append]
  constructor
  · intro h
    obtain ⟨s, t, rfl, -, ht⟩ := h
    exact ⟨s, by rw [(globs_of_plain hplain).1 ht]⟩
  · intro h
    obtain ⟨s, rfl⟩ := h
    exact ⟨s, text, rfl, globs_asterisk s, (globs_of_plain hplain).2 rfl⟩

theorem globs_open : Globs ('*' :: (text ++ ['*'])) v ↔ text <:+: v := by
  rw [← List.singleton_append, globs_append]
  constructor
  · intro h
    obtain ⟨s, _, rfl, -, hrest⟩ := h
    obtain ⟨t, rfl⟩ := (globs_open_end hplain).1 hrest
    exact ⟨s, t, List.append_assoc ..⟩
  · intro h
    obtain ⟨s, t, rfl⟩ := h
    exact ⟨s, text ++ t, (List.append_assoc ..).symm, globs_asterisk s,
      (globs_open_end hplain).2 (List.prefix_append text t)⟩

end

theorem occursIn_iff {part l : List Char} : occursIn part l = true ↔ part <:+: l := by
  induction l with
  | nil => rw [occursIn, List.isEmpty_iff, List.infix_nil]
  | cons c l ih =>
    rw [occursIn, Bool.or_eq_true, List.isPrefixOf_iff_prefix, ih, List.infix_cons_iff]

/-- A text with asterisks at its ends is matched as a glob. -/
theorem Written.matchesText_iff {pattern : Pattern} {p : String} (h : pattern.Written p)
    (v : String) : pattern.matchesText v = true ↔ Globs p.toList v.toList := by
  cases pattern with
  | exactly text =>
    obtain ⟨hplain, rfl⟩ := h
    rw [globs_of_plain hplain, String.toList_inj, matchesText, beq_iff_eq]
  | startsWith text =>
    obtain ⟨hplain, -, rfl⟩ := h
    rw [String.toList_append, matchesText, List.isPrefixOf_iff_prefix]
    exact (globs_open_end hplain).symm
  | endsWith text =>
    obtain ⟨hplain, -, rfl⟩ := h
    rw [String.toList_append, matchesText, List.isSuffixOf_iff_suffix]
    exact (globs_open_start hplain).symm
  | contains text =>
    rw [matchesText, occursIn_iff]
    obtain ⟨hplain, rfl | ⟨rfl, rfl⟩⟩ := h
    · rw [String.toList_append, String.toList_append, List.append_assoc]
      exact (globs_open hplain).symm
    · exact iff_of_true (List.nil_infix) (globs_asterisk v.toList)

/-! ### Texts that are accepted -/

/-- Behind a text without asterisks, an asterisk is the last character. -/
theorem eq_nil_of_plain_concat {text front back : List Char} (hplain : '*' ∉ text)
    (h : text ++ ['*'] = front ++ '*' :: back) : back = [] := by
  by_contra hback
  have htext := congrArg List.dropLast h
  rw [List.dropLast_concat, List.dropLast_append_of_ne_nil (List.cons_ne_nil _ _),
    List.dropLast_cons_of_ne_nil hback] at htext
  exact hplain (htext ▸ List.mem_append_right front List.mem_cons_self)

theorem Written.asterisksAtEnds {pattern : Pattern} {p : String} (h : pattern.Written p) :
    AsterisksAtEnds p.toList := by
  intro front back hp
  cases pattern with
  | exactly text =>
    obtain ⟨hplain, rfl⟩ := h
    exact absurd (hp ▸ List.mem_append_right front List.mem_cons_self) hplain
  | startsWith text =>
    obtain ⟨hplain, -, rfl⟩ := h
    rw [String.toList_append] at hp
    exact .inr (eq_nil_of_plain_concat hplain hp)
  | endsWith text =>
    obtain ⟨hplain, -, rfl⟩ := h
    rw [String.toList_append] at hp
    rcases List.append_eq_cons_iff.1 hp.symm with ⟨rfl, -⟩ | ⟨front, rfl, htext⟩
    · exact .inl rfl
    · change text.toList = front ++ '*' :: back at htext
      exact absurd (htext ▸ List.mem_append_right front List.mem_cons_self) hplain
  | contains text =>
    obtain ⟨hplain, rfl | ⟨rfl, rfl⟩⟩ := h
    · rw [String.toList_append, String.toList_append, List.append_assoc] at hp
      rcases List.append_eq_cons_iff.1 hp.symm with ⟨rfl, -⟩ | ⟨front, rfl, htext⟩
      · exact .inl rfl
      · exact .inr (eq_nil_of_plain_concat hplain htext)
    · exact .inr (eq_nil_of_plain_concat List.not_mem_nil hp)

/-- Asterisks at the ends are taken off, the first of them and then the last. -/
theorem exists_written {p : String} (h : AsterisksAtEnds p.toList) :
    ∃ pattern : Pattern, pattern.Written p := by
  by_cases hplain : '*' ∈ p.toList
  · obtain ⟨front, back, hp, hfront⟩ := List.eq_append_cons_of_mem hplain
    by_cases hempty : front = []
    · subst hempty
      by_cases hback : '*' ∈ back
      · obtain ⟨core, rest, rfl, hcore⟩ := List.eq_append_cons_of_mem hback
        obtain rfl := (h ('*' :: core) rest hp).resolve_left (List.cons_ne_nil _ _)
        refine ⟨.contains (.ofList core), by simpa [Plain] using hcore, .inl ?_⟩
        simp [← String.toList_inj, hp]
      · by_cases hnone : back = []
        · refine ⟨.contains "", List.not_mem_nil, .inr ⟨rfl, ?_⟩⟩
          simp [← String.toList_inj, hp, hnone]
        · refine ⟨.endsWith (.ofList back), by simpa [Plain] using hback, by simpa using hnone, ?_⟩
          simp [← String.toList_inj, hp]
    · obtain rfl := (h front back hp).resolve_left hempty
      refine ⟨.startsWith (.ofList front), by simpa [Plain] using hfront, by simpa using hempty, ?_⟩
      simp [← String.toList_inj, hp]
  · exact ⟨.exactly p, hplain, rfl⟩

/-- A text is accepted as a pattern just if its asterisks are at its ends, and the pattern matches
what the text stands for as a glob: everything if it is one or two asterisks, and only itself if it
has none. -/
theorem ofText?_globs (p : String) :
    ((∃ pattern, ofText? p = some pattern) ↔ AsterisksAtEnds p.toList) ∧
    ∀ pattern, ofText? p = some pattern →
      (∀ v : String, pattern.matchesText v = true ↔ Globs p.toList v.toList) ∧
      (p = "*" ∨ p = "**" → ∀ v, pattern.matchesText v = true) ∧
      ('*' ∉ p.toList → ∀ v, pattern.matchesText v = true ↔ v = p) := by
  simp only [ofText?_eq_some_iff]
  refine ⟨⟨fun ⟨_, h⟩ => h.asterisksAtEnds, exists_written⟩, fun pattern h => ?_⟩
  refine ⟨h.matchesText_iff, fun hstars v => ?_, fun hplain v => ?_⟩
  · rw [h.matchesText_iff]
    rcases hstars with rfl | rfl
    · exact globs_asterisk v.toList
    · exact (globs_open List.not_mem_nil).2 List.nil_infix
  · rw [h.matchesText_iff, globs_of_plain hplain, String.toList_inj]

/-- Two asterisks match everything; none, only the text; and one at the start leaves the case of the
letters and the end of the text to be the same. -/
theorem ofText?_globs_of_short_texts :
    (∃ pattern, ofText? "**" = some pattern ∧ ∀ v, pattern.matchesText v = true) ∧
    (∃ pattern, ofText? "ab" = some pattern ∧ ∀ v, pattern.matchesText v = true ↔ v = "ab") ∧
    ∃ pattern, ofText? "*ab" = some pattern ∧ Globs "*ab".toList "abab".toList ∧
      ¬ Globs "*ab".toList "aB".toList ∧ ¬ Globs "*ab".toList "aba".toList := by
  refine ⟨⟨.contains "", rfl, ?_⟩, ⟨.exactly "ab", rfl, ?_⟩, .endsWith "ab", rfl, ?_⟩
  · exact ((ofText?_globs "**").2 _ rfl).2.1 (.inr rfl)
  · exact ((ofText?_globs "ab").2 _ rfl).2.2 (by decide)
  · have hglobs := ((ofText?_globs "*ab").2 (.endsWith "ab") rfl).1
    rw [← hglobs, ← hglobs, ← hglobs]
    decide

end CampusQuery.Pattern
