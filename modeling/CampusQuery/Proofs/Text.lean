import CampusQuery.Text.Blank
import Mathlib.Data.List.TakeWhile
import Mathlib.Tactic.SplitIfs
/-!
Blanks at the ends of texts, their words and their lines.
-/

namespace CampusQuery.Text

/-! ### Blanks at the ends -/

theorem dropBlanks_append {a : List Char} (ha : ∀ c ∈ a, isBlank c = true) (l : List Char) :
    dropBlanks (a ++ l) = dropBlanks l :=
  List.dropWhile_append_of_pos ha

/-- What is left behind blanks starts with a character of another kind. -/
theorem isBlank_of_dropBlanks {l rest : List Char} {c : Char} (h : dropBlanks l = c :: rest) :
    isBlank c = false := by
  have hhead := List.head?_dropWhile_not isBlank l
  rw [← dropBlanks, h] at hhead
  simpa using hhead

/-- Blanks behind a text go when it is trimmed. -/
theorem exists_dropBlanks_eq (l : List Char) :
    ∃ b, dropBlanks l = trimChars l ++ b ∧ ∀ c ∈ b, isBlank c = true := by
  refine ⟨((dropBlanks l).reverse.takeWhile isBlank).reverse, ?_, ?_⟩
  · rw [trimChars, dropBlanks, dropBlanks, ← List.reverse_append, List.takeWhile_append_dropWhile,
      List.reverse_reverse]
  · intro c hc
    exact List.mem_takeWhile_imp (List.mem_reverse.1 hc)

/-- A text is what is left when it is trimmed, between blanks. -/
theorem exists_eq_append_trimChars (l : List Char) :
    ∃ a b, l = a ++ trimChars l ++ b ∧ (∀ c ∈ a, isBlank c = true) ∧ ∀ c ∈ b, isBlank c = true := by
  obtain ⟨b, hb, hblank⟩ := exists_dropBlanks_eq l
  refine ⟨l.takeWhile isBlank, b, ?_, fun c hc => List.mem_takeWhile_imp hc, hblank⟩
  rw [List.append_assoc, ← hb, dropBlanks, List.takeWhile_append_dropWhile]

theorem head?_trimChars (l : List Char) : (trimChars l).head? = (dropBlanks l).head? := by
  obtain ⟨b, hb, hblank⟩ := exists_dropBlanks_eq l
  cases htrim : trimChars l with
  | cons c rest => rw [hb, htrim, List.cons_append, List.head?_cons, List.head?_cons]
  | nil =>
    rw [htrim, List.nil_append] at hb
    cases hdrop : dropBlanks l with
    | nil => rfl
    | cons c rest =>
      have hc := hblank c (by rw [← hb, hdrop]; exact List.mem_cons_self)
      rw [isBlank_of_dropBlanks hdrop] at hc
      cases hc

theorem head?_trim (s : String) : (trim s).toList.head? = (dropBlanks s.toList).head? := by
  rw [trim, String.toList_ofList, head?_trimChars]

/-- Blanks at the ends make no difference. -/
theorem trimChars_append {front back : List Char} (hfront : ∀ c ∈ front, isBlank c = true)
    (hback : ∀ c ∈ back, isBlank c = true) (l : List Char) :
    trimChars (front ++ l ++ back) = trimChars l := by
  have hreverse : ∀ c ∈ back.reverse, isBlank c = true :=
    fun c hc => hback c (List.mem_reverse.1 hc)
  rw [trimChars, trimChars, List.append_assoc, dropBlanks_append hfront]
  cases hdrop : dropBlanks l with
  | nil =>
    have hall : ∀ c ∈ l ++ back, isBlank c = true :=
      List.forall_mem_append.2 ⟨List.dropWhile_eq_nil_iff.1 hdrop, hback⟩
    have hnil : dropBlanks (l ++ back) = [] := List.dropWhile_eq_nil_iff.2 hall
    rw [hnil]
  | cons c rest =>
    have hlong : dropBlanks (l ++ back) = c :: rest ++ back := by
      rw [dropBlanks, List.dropWhile_append, ← dropBlanks, hdrop]
      rfl
    rw [hlong, List.reverse_append, dropBlanks_append hreverse]

theorem trim_append {s t : String} {front back : List Char} (hfront : ∀ c ∈ front, isBlank c = true)
    (hback : ∀ c ∈ back, isBlank c = true) (h : t.toList = front ++ s.toList ++ back) :
    trim t = trim s := by
  rw [trim, trim, h, trimChars_append hfront hback]

theorem trim_trim (s : String) : trim (trim s) = trim s := by
  obtain ⟨front, back, hs, hfront, hback⟩ := exists_eq_append_trimChars s.toList
  refine (trim_append hfront hback ?_).symm
  rw [trim, String.toList_ofList, ← hs]

theorem trim_empty : trim "" = "" :=
  rfl

theorem trim_eq_empty_iff {s : String} : trim s = "" ↔ allBlank s = true := by
  have hlist : trim s = "" ↔ trimChars s.toList = [] := by
    rw [trim, ← String.toList_inj, String.toList_ofList]
    rfl
  have hhead : trimChars s.toList = [] ↔ dropBlanks s.toList = [] := by
    rw [← List.head?_eq_none_iff, head?_trimChars, List.head?_eq_none_iff]
  rw [hlist, hhead, dropBlanks, List.dropWhile_eq_nil_iff, allBlank, List.all_eq_true]

/-! ### Words -/

theorem wordsFrom_append_blanks {b : List Char} (hb : ∀ c ∈ b, isBlank c = true)
    (run l : List Char) : wordsFrom run (l ++ b) = wordsFrom run l := by
  induction l generalizing run with
  | cons c l ih =>
    simp only [List.cons_append, wordsFrom, ih]
  | nil =>
    rw [List.nil_append]
    induction b generalizing run with
    | nil => rfl
    | cons c b ih =>
      rw [List.forall_mem_cons] at hb
      have hnone : wordsFrom [] b = [] := ih hb.2 []
      simp [wordsFrom, hb.1, hnone]

theorem wordsFrom_dropBlanks (l : List Char) : wordsFrom [] (dropBlanks l) = wordsFrom [] l := by
  induction l with
  | nil => rfl
  | cons c l ih =>
    cases hc : isBlank c with
    | true => simpa [dropBlanks, wordsFrom, hc] using ih
    | false => simp [dropBlanks, hc]

/-- Blanks at the ends belong to no word. -/
theorem words_trim (s : String) : words (trim s) = words s := by
  obtain ⟨b, hb, hblank⟩ := exists_dropBlanks_eq s.toList
  rw [words, words, trim, String.toList_ofList, ← wordsFrom_dropBlanks s.toList, hb,
    wordsFrom_append_blanks hblank]

/-- A word that has started goes on to the next blank. -/
theorem exists_wordsFrom_eq_cons (c : Char) (run l : List Char) :
    ∃ front rest words, l = front ++ rest ∧
      wordsFrom (c :: run) l = .ofList ((c :: run).reverse ++ front) :: words := by
  induction l generalizing c run with
  | nil => exact ⟨[], [], [], rfl, by simp [wordsFrom]⟩
  | cons d l ih =>
    cases hd : isBlank d with
    | true => exact ⟨[], d :: l, wordsFrom [] l, rfl, by simp [wordsFrom, hd]⟩
    | false =>
      obtain ⟨front, rest, words, rfl, hwords⟩ := ih d (c :: run)
      exact ⟨d :: front, rest, words, rfl, by simp [wordsFrom, hd, hwords]⟩

/-- A text starts with its first word, once the blanks in front are gone. -/
theorem exists_dropBlanks_eq_append {s word : String} {rest : List String}
    (h : words s = word :: rest) : ∃ tail, dropBlanks s.toList = word.toList ++ tail := by
  rw [words, ← wordsFrom_dropBlanks] at h
  cases hdrop : dropBlanks s.toList with
  | nil =>
    rw [hdrop] at h
    cases h
  | cons c l =>
    have hc := isBlank_of_dropBlanks hdrop
    obtain ⟨front, tail, words, rfl, hwords⟩ := exists_wordsFrom_eq_cons c [] l
    rw [hdrop, wordsFrom, if_neg (by simp [hc]), hwords] at h
    cases h
    exact ⟨tail, by simp⟩

/-! ### Lines -/

theorem linesFrom_append {l : List Char} (hl : '\n' ∉ l) (line rest : List Char) :
    linesFrom line (l ++ '\n' :: rest) = endLine (l.reverse ++ line) :: linesFrom [] rest := by
  induction l generalizing line with
  | nil => rfl
  | cons c l ih =>
    rw [List.mem_cons, not_or] at hl
    rw [List.cons_append, linesFrom, if_neg (Ne.symm hl.1), ih hl.2]
    simp

theorem linesFrom_of_not_mem {l : List Char} (hl : '\n' ∉ l) (line : List Char) :
    linesFrom line l =
      if (l.reverse ++ line).isEmpty then [] else [.ofList (line.reverse ++ l)] := by
  induction l generalizing line with
  | nil => simp [linesFrom]
  | cons c l ih =>
    rw [List.mem_cons, not_or] at hl
    rw [linesFrom, if_neg (Ne.symm hl.1), ih hl.2]
    simp

/-- A text without line feeds is a line by itself. -/
theorem lines_of_not_mem {s : String} (hs : '\n' ∉ s.toList) (hne : s ≠ "") : lines s = [s] := by
  have hlist : s.toList ≠ [] := by simpa using hne
  rw [lines, linesFrom_of_not_mem hs, if_neg (by simpa using hlist)]
  simp

/-- A carriage return at the end of a line is no part of it. -/
theorem toList_endLine (line : List Char) :
    ∃ back, (∀ c ∈ back, c = '\r') ∧ line.reverse = (endLine line).toList ++ back := by
  unfold endLine
  split
  · exact ⟨['\r'], by simp, by simp⟩
  · exact ⟨[], nofun, by simp⟩

/-- Lines that are ended by line feeds, and what comes behind the last of them. -/
theorem linesFrom_flatMap {ended : List String} (hended : ∀ line ∈ ended, '\n' ∉ line.toList)
    (rest : List Char) :
    linesFrom [] (ended.flatMap (fun line => line.toList ++ ['\n']) ++ rest) =
      ended.map (fun line => endLine line.toList.reverse) ++ linesFrom [] rest := by
  induction ended with
  | nil => rfl
  | cons line ended ih =>
    rw [List.forall_mem_cons] at hended
    rw [List.flatMap_cons, List.append_assoc, List.append_assoc, List.singleton_append,
      linesFrom_append hended.1, ih hended.2, List.append_nil]
    rfl

/-- The text of the first lines, each with the line feed that ends it. -/
def firstLinesChars : (n : Nat) → List Char → List Char
  | 0, _ => []
  | _ + 1, [] => []
  | n + 1, c :: l => c :: if c = '\n' then firstLinesChars n l else firstLinesChars (n + 1) l

@[inherit_doc firstLinesChars]
def firstLines (n : Nat) (s : String) : String :=
  .ofList (firstLinesChars n s.toList)

theorem firstLinesChars_zero (l : List Char) : firstLinesChars 0 l = [] := by
  cases l <;> rfl

theorem linesFrom_nil_nil : linesFrom [] [] = [] :=
  rfl

theorem linesFrom_firstLinesChars (n : Nat) (line l : List Char) :
    linesFrom line (firstLinesChars (n + 1) l) = (linesFrom line l).take (n + 1) := by
  induction l generalizing n line with
  | nil =>
    rw [firstLinesChars, linesFrom]
    split_ifs <;> simp
  | cons c l ih =>
    rw [firstLinesChars, linesFrom, linesFrom]
    by_cases hc : c = '\n'
    · rw [if_pos hc, if_pos hc, if_pos hc, List.take_succ_cons]
      cases n with
      | zero => rw [firstLinesChars_zero, List.take_zero, linesFrom_nil_nil]
      | succ n => rw [ih]
    · rw [if_neg hc, if_neg hc, if_neg hc, ih]

theorem lines_firstLines (n : Nat) (s : String) : lines (firstLines n s) = (lines s).take n := by
  rw [lines, lines, firstLines, String.toList_ofList]
  cases n with
  | zero => rw [firstLinesChars_zero, List.take_zero, linesFrom_nil_nil]
  | succ n => exact linesFrom_firstLinesChars n [] s.toList

example : firstLines 2 "a\r\n\nb" = "a\r\n\n" := by decide +kernel

end CampusQuery.Text
