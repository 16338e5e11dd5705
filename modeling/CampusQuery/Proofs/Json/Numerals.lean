import CampusQuery.Json.Writer
import CampusQuery.Proofs.Json.Numbers
import Mathlib.Algebra.Order.Field.Power
import Mathlib.Tactic.IntervalCases
import Mathlib.Tactic.Linarith
import Mathlib.Tactic.Positivity
/-!
What is kept of the digits of a number.

Digits of up to sixty-four bits are kept as they are. Of more, some are left out, and what is kept
does not stand for a larger number. Whole numbers are read as they are written.
-/

namespace CampusQuery.Json

namespace Numeral

/-- The number after more of its text, if all of it belongs to the number. -/
def feed (n : Numeral) : List Char → Option Numeral
  | [] => some n
  | c :: text =>
    match n.push c with
    | .more n => n.feed text
    | _ => none

theorem feed_append (n : Numeral) (text text' : List Char) :
    n.feed (text ++ text') = (n.feed text).bind (·.feed text') := by
  induction text generalizing n with
  | nil => rfl
  | cons c text ih =>
    simp only [List.cons_append, feed]
    split
    · exact ih _
    · rfl

/-- The number that starts with the text. -/
def ofChars? : List Char → Option Numeral
  | [] => none
  | c :: text => (start? c).bind (·.feed text)

theorem ofChars?_append {text : List Char} (htext : text ≠ []) (text' : List Char) :
    ofChars? (text ++ text') = (ofChars? text).bind (·.feed text') := by
  obtain ⟨c, text, rfl⟩ := List.exists_cons_of_ne_nil htext
  simp only [List.cons_append, ofChars?, Option.bind_assoc, feed_append]

/-! ### Digits -/

theorem digit?_eq_some {c : Char} (hc : c.isDigit = true) :
    digit? c = some (c.toNat - '0'.toNat) := by
  unfold digit?
  rw [if_pos]
  simpa [Char.isDigit, Char.le_def] using hc

theorem digit?_eq_none {c : Char} (hc : c.isDigit = false) : digit? c = none := by
  unfold digit?
  rw [if_neg]
  simpa [Char.isDigit, Char.le_def] using hc

theorem sub_lt_ten {c : Char} (hc : c.isDigit = true) : c.toNat - '0'.toNat < 10 := by
  have hdigit : '0' ≤ c ∧ c ≤ '9' := by simpa [Char.isDigit, Char.le_def] using hc
  have hle : c.toNat ≤ '9'.toNat := hdigit.2
  have hzero : '0'.toNat = 48 := rfl
  have hnine : '9'.toNat = 57 := rfl
  omega

/-- What is kept of `digits` after `left` of them have been left out: all of it where none has been,
and in general no more than `digits`, which only begins to be left out beyond sixty-four bits. -/
structure Follows (significand : UInt64) (full : Bool) (digits left : Nat) : Prop where
  all : left = 0 → significand.toNat = digits ∧ full = false
  le : significand.toNat * 10 ^ left ≤ digits
  large : left ≠ 0 → 2 ^ 64 * 10 ^ left ≤ 10 * digits

namespace Follows

variable {n : Numeral} {significand : UInt64} {full : Bool} {digits left d : Nat}

theorem of_digit (hd : d < 10) : Follows (.ofNat d) false d 0 := by
  have htoNat : (UInt64.ofNat d).toNat = d := by
    rw [UInt64.toNat_ofNat']
    omega
  exact ⟨fun _ => ⟨htoNat, rfl⟩, by rw [htoNat, Nat.pow_zero, Nat.mul_one], absurd rfl⟩

/-- Behind the point digits are kept again. -/
theorem reopen (h : Follows significand full digits left) :
    Follows significand false digits left :=
  ⟨fun hleft => ⟨(h.all hleft).1, rfl⟩, h.le, h.large⟩

/-- After others that have been left out, any digit that fits stands for less than they do. -/
theorem keep (h : Follows n.significand n.full digits left)
    (hextended : n.extended? d = some significand) :
    Follows significand n.full (digits * 10 + d) left := by
  unfold extended? at hextended
  split_ifs at hextended with hfits
  cases hextended
  have hlt : n.significand.toNat * 10 + d < 2 ^ 64 := hfits.2
  have htoNat : (UInt64.ofNat (n.significand.toNat * 10 + d)).toNat =
      n.significand.toNat * 10 + d := by
    rw [UInt64.toNat_ofNat', Nat.mod_eq_of_lt hlt]
  have hle := h.le
  refine ⟨fun hleft => ⟨?_, hfits.1⟩, ?_, fun hleft => ?_⟩
  · rw [htoNat, (h.all hleft).1]
  · rw [htoNat]
    rcases eq_or_ne left 0 with rfl | hleft
    · rw [(h.all rfl).1]
      omega
    · have hmul := Nat.mul_le_mul_right (10 ^ left) hlt.le
      have hlarge := h.large hleft
      omega
  · have hlarge := h.large hleft
    omega

/-- A digit that is left out counts as a zero. -/
theorem leave (h : Follows n.significand n.full digits left) (hextended : n.extended? d = none) :
    Follows n.significand true (digits * 10 + d) (left + 1) := by
  have hle := h.le
  have hpow : 10 ^ (left + 1) = 10 ^ left * 10 := Nat.pow_succ 10 left
  refine ⟨fun hleft => absurd hleft (Nat.succ_ne_zero left), ?_, fun _ => ?_⟩
  · rw [hpow, ← Nat.mul_assoc]
    omega
  · have hlarge : 2 ^ 64 * 10 ^ left ≤ digits * 10 + d := by
      rcases eq_or_ne left 0 with rfl | hleft
      · obtain ⟨hall, hfull⟩ := h.all rfl
        unfold extended? at hextended
        rw [hfull, hall] at hextended
        simpa [UInt64.size] using hextended
      · have hlarge := h.large hleft
        omega
    rw [hpow, ← Nat.mul_assoc]
    omega

/-- Digits of sixty-four bits are all kept. -/
theorem left_eq_zero (h : Follows significand full digits left) (hdigits : digits < 2 ^ 64) :
    left = 0 := by
  by_contra hleft
  have hlarge := h.large hleft
  have hpow : 10 ≤ 10 ^ left := Nat.le_self_pow hleft 10
  have hmul := Nat.mul_le_mul_left (2 ^ 64) hpow
  omega

end Follows

/-- The number has read `digits`, of which `places` stand behind the point, and no exponent. -/
structure HasRead (n : Numeral) (negative : Bool) (digits places left : Nat) : Prop where
  negative_eq : n.negative = negative
  exponentNegative_eq : n.exponentNegative = false
  exponent_eq : n.exponent = 0
  power_eq : n.power = left - places
  follows : Follows n.significand n.full digits left

namespace HasRead

variable {n : Numeral} {negative : Bool} {digits places left : Nat}

theorem of_first (stage : NumeralStage) {d : Nat} (hd : d < 10) :
    (first stage negative d).HasRead negative d 0 0 :=
  ⟨rfl, rfl, rfl, rfl, .of_digit hd⟩

theorem withDigit (h : n.HasRead negative digits places left) (d : Nat) :
    ∃ left', (n.withDigit d).HasRead negative (digits * 10 + d) places left' := by
  have hpower := h.power_eq
  unfold Numeral.withDigit
  cases hextended : n.extended? d with
  | some significand =>
    exact ⟨left, h.negative_eq, h.exponentNegative_eq, h.exponent_eq, hpower,
      h.follows.keep hextended⟩
  | none =>
    refine ⟨left + 1, h.negative_eq, h.exponentNegative_eq, h.exponent_eq, ?_,
      h.follows.leave hextended⟩
    simp only
    omega

theorem withPlace (h : n.HasRead negative digits places left) (d : Nat) :
    ∃ left', (n.withPlace d).HasRead negative (digits * 10 + d) (places + 1) left' := by
  have hpower := h.power_eq
  unfold Numeral.withPlace
  cases hextended : n.extended? d with
  | some significand =>
    refine ⟨left, h.negative_eq, h.exponentNegative_eq, h.exponent_eq, ?_,
      h.follows.keep hextended⟩
    simp only
    omega
  | none =>
    refine ⟨left + 1, h.negative_eq, h.exponentNegative_eq, h.exponent_eq, ?_,
      h.follows.leave hextended⟩
    simp only
    omega

/-- Digits of sixty-four bits are all kept, each in its place. -/
theorem all (h : n.HasRead negative digits places left) (hdigits : digits < 2 ^ 64) :
    n.significand.toNat = digits ∧ n.power = -places ∧ n.full = false := by
  obtain rfl := h.follows.left_eq_zero hdigits
  obtain ⟨hall, hfull⟩ := h.follows.all rfl
  have hpower := h.power_eq
  exact ⟨hall, by omega, hfull⟩

/-- What is kept stands for a number that is not larger. -/
theorem le (h : n.HasRead negative digits places left) (e : Int) :
    (n.significand.toNat * 10 ^ (n.power + e) : ℚ) ≤ digits * 10 ^ (e - places) := by
  have hle : (n.significand.toNat * 10 ^ left : ℚ) ≤ digits := by exact_mod_cast h.follows.le
  have hpower : n.power + e = (left : Int) + (e - places) := by
    rw [h.power_eq]
    omega
  rw [hpower, zpow_add₀ (by norm_num), ← mul_assoc, zpow_natCast]
  gcongr

end HasRead

theorem stage_withDigit (n : Numeral) (d : Nat) : (n.withDigit d).stage = n.stage := by
  unfold withDigit
  split <;> rfl

theorem stage_withPlace (n : Numeral) (d : Nat) : (n.withPlace d).stage = .places := by
  unfold withPlace
  split <;> rfl

/-! ### Parts of numbers -/

section Parts

variable {n : Numeral} {negative : Bool} {digits places left : Nat}

theorem feed_whole (h : n.HasRead negative digits places left) (hn : n.stage = .whole)
    {text : List Char} (htext : ∀ c ∈ text, c.isDigit = true) :
    ∃ n' left', n.feed text = some n' ∧ n'.stage = .whole ∧
      n'.HasRead negative (Nat.ofDigitChars 10 text digits) places left' := by
  induction text generalizing n digits left with
  | nil => exact ⟨n, left, rfl, hn, h⟩
  | cons c text ih =>
    rw [List.forall_mem_cons] at htext
    obtain ⟨left', hdigit⟩ := h.withDigit (c.toNat - '0'.toNat)
    simp only [feed, push, hn, digit?_eq_some htext.1, Nat.ofDigitChars_cons, Nat.mul_comm 10]
    exact ih hdigit ((stage_withDigit n _).trans hn) htext.2

theorem feed_places (h : n.HasRead negative digits places left) (hn : n.stage = .places)
    {text : List Char} (htext : ∀ c ∈ text, c.isDigit = true) :
    ∃ n' left', n.feed text = some n' ∧ n'.stage = .places ∧
      n'.HasRead negative (Nat.ofDigitChars 10 text digits) (places + text.length) left' := by
  induction text generalizing n digits places left with
  | nil => exact ⟨n, left, rfl, hn, h⟩
  | cons c text ih =>
    rw [List.forall_mem_cons] at htext
    obtain ⟨left', hplace⟩ := h.withPlace (c.toNat - '0'.toNat)
    simp only [feed, push, hn, digit?_eq_some htext.1, Nat.ofDigitChars_cons, Nat.mul_comm 10,
      List.length_cons, Nat.add_comm text.length, ← Nat.add_assoc]
    exact ih hplace (stage_withPlace n _) htext.2

/-- The digits of an exponent, of which none is left out. -/
theorem feed_exponentDigits (hn : n.stage = .exponent) {text : List Char}
    (htext : ∀ c ∈ text, c.isDigit = true) :
    n.feed text = some { n with exponent := Nat.ofDigitChars 10 text n.exponent } := by
  induction text generalizing n with
  | nil => rfl
  | cons c text ih =>
    rw [List.forall_mem_cons] at htext
    simp only [feed, push, hn, digit?_eq_some htext.1]
    rw [ih rfl htext.2, Nat.ofDigitChars_cons, Nat.mul_comm 10]

/-- The digits before the point: a zero, or digits without a zero at the front. -/
def IsWhole (whole : List Char) : Prop :=
  whole = ['0'] ∨ ∃ c digits, whole = c :: digits ∧ c.isDigit = true ∧ c ≠ '0' ∧
    ∀ d ∈ digits, d.isDigit = true

/-- The first digit of a number, with or without the sign. -/
theorem ofChars?_digit (negative : Bool) {c : Char} (hc : c.isDigit = true) (text : List Char) :
    ofChars? ((if negative then ['-'] else []) ++ c :: text) =
      (first (firstStage (c.toNat - '0'.toNat)) negative (c.toNat - '0'.toNat)).feed text := by
  cases negative with
  | false =>
    have hsign : c ≠ '-' := by
      rintro rfl
      cases hc
    simp only [Bool.false_eq_true, if_false, List.nil_append, ofChars?, start?, if_neg hsign,
      digit?_eq_some hc, Option.map_some, Option.bind_some]
  | true =>
    simp only [if_true, List.singleton_append, ofChars?, start?, Option.bind_some, feed, push,
      first, digit?_eq_some hc]

theorem firstStage_eq_whole {c : Char} (hc : c.isDigit = true) (hne : c ≠ '0') :
    firstStage (c.toNat - '0'.toNat) = .whole := by
  have hdigit : '0' ≤ c ∧ c ≤ '9' := by simpa [Char.isDigit, Char.le_def] using hc
  have hle : '0'.toNat ≤ c.toNat := hdigit.1
  have hne : c.toNat ≠ '0'.toNat := fun h => hne (Char.toNat_inj.1 h)
  exact if_neg (by omega)

theorem ofChars?_whole (negative : Bool) {whole : List Char} (hwhole : IsWhole whole) :
    ∃ n left, ofChars? ((if negative then ['-'] else []) ++ whole) = some n ∧
      (n.stage = .zero ∨ n.stage = .whole) ∧
      n.HasRead negative (Nat.ofDigitChars 10 whole 0) 0 left := by
  rcases hwhole with rfl | ⟨c, digits, rfl, hc, hne, hdigits⟩
  · rw [ofChars?_digit negative (by decide)]
    exact ⟨_, 0, rfl, .inl rfl, .of_first _ (by decide)⟩
  · have hfirst : (first .whole negative (c.toNat - '0'.toNat)).HasRead negative
        (c.toNat - '0'.toNat) 0 0 := .of_first _ (sub_lt_ten hc)
    obtain ⟨n, left, hfeed, hstage, hread⟩ := feed_whole hfirst rfl hdigits
    rw [ofChars?_digit negative hc, firstStage_eq_whole hc hne, Nat.ofDigitChars_cons, Nat.mul_zero,
      Nat.zero_add]
    exact ⟨n, left, hfeed, .inr hstage, hread⟩

/-- A point and the digits behind it. -/
theorem feed_point (h : n.HasRead negative digits 0 left) (hn : n.stage = .zero ∨ n.stage = .whole)
    {places : List Char} (hne : places ≠ []) (hplaces : ∀ c ∈ places, c.isDigit = true) :
    ∃ n' left', n.feed ('.' :: places) = some n' ∧ n'.stage = .places ∧
      n'.HasRead negative (Nat.ofDigitChars 10 places digits) places.length left' := by
  obtain ⟨c, places, rfl⟩ := List.exists_cons_of_ne_nil hne
  rw [List.forall_mem_cons] at hplaces
  have hpoint : n.push '.' = .more { n with stage := .point, full := false } := by
    rcases hn with hn | hn <;> simp [push, hn, digit?_eq_none]
  have hopen : HasRead { n with stage := .point, full := false } negative digits 0 left :=
    ⟨h.negative_eq, h.exponentNegative_eq, h.exponent_eq, h.power_eq, h.follows.reopen⟩
  obtain ⟨left', hplace⟩ := hopen.withPlace (c.toNat - '0'.toNat)
  obtain ⟨n', left'', hfeed, hstage, hread⟩ :=
    feed_places hplace (stage_withPlace _ _) hplaces.2
  simp only [feed, hpoint]
  simp only [push, digit?_eq_some hplaces.1]
  refine ⟨n', left'', hfeed, hstage, ?_⟩
  rwa [Nat.ofDigitChars_cons, Nat.mul_comm 10, List.length_cons, Nat.add_comm places.length,
    ← Nat.zero_add 1]

/-- An exponent. -/
theorem feed_exponent (hn : n.stage = .zero ∨ n.stage = .whole ∨ n.stage = .places)
    (hexponent : n.exponentNegative = false) (negative : Bool) {text : List Char}
    (hne : text ≠ []) (htext : ∀ c ∈ text, c.isDigit = true) :
    n.feed ('e' :: (if negative then '-' else '+') :: text) = some { n with
      stage := .exponent
      exponentNegative := negative
      exponent := Nat.ofDigitChars 10 text 0 } := by
  obtain ⟨c, text, rfl⟩ := List.exists_cons_of_ne_nil hne
  rw [List.forall_mem_cons] at htext
  have hmark : n.push 'e' = .more { n with stage := .exponentMark } := by
    rcases hn with hn | hn | hn <;> simp [push, hn, digit?_eq_none]
  have hsign : push { n with stage := .exponentMark } (if negative then '-' else '+') =
      .more { n with stage := .exponentSign, exponentNegative := negative } := by
    cases negative <;> simp [push, digit?_eq_none, hexponent]
  simp only [feed, hmark, hsign]
  simp only [push, digit?_eq_some htext.1]
  rw [feed_exponentDigits rfl htext.2, Nat.ofDigitChars_cons, Nat.mul_zero, Nat.zero_add]

end Parts

/-- A number that may end where it is. -/
def Complete (n : Numeral) : Prop :=
  n.stage = .zero ∨ n.stage = .whole ∨ n.stage = .places ∨ n.stage = .exponent

/-- A character that cannot go on with any number. -/
def Ends (c : Char) : Prop :=
  c.isDigit = false ∧ c ≠ '.' ∧ c ≠ 'e' ∧ c ≠ 'E'

theorem Complete.push_eq_over {n : Numeral} (hn : n.Complete) {c : Char} (hc : Ends c) :
    n.push c = .over := by
  obtain ⟨hdigit, hpoint, he, hE⟩ := hc
  rcases hn with hn | hn | hn | hn <;>
    simp [push, hn, digit?_eq_none hdigit, hpoint, he, hE]

/-! ### Whole numbers -/

theorem toDigits_eq_cons {n : Nat} (hn : n ≠ 0) :
    ∃ c digits, Nat.toDigits 10 n = c :: digits ∧ c ≠ '0' := by
  induction n using Nat.strongRecOn with
  | ind n ih =>
    rw [Nat.toDigits_eq_if (by decide)]
    split_ifs with hlt
    · refine ⟨n.digitChar, [], rfl, ?_⟩
      interval_cases n <;> simp_all
    · obtain ⟨c, digits, heq, hc⟩ := ih (n / 10) (by omega) (by omega)
      exact ⟨c, digits ++ [(n % 10).digitChar], by rw [heq, List.cons_append], hc⟩

theorem isDigit_toDigits {n : Nat} : ∀ c ∈ Nat.toDigits 10 n, c.isDigit = true :=
  fun _ => Nat.isDigit_of_mem_toDigits (by decide) (by decide)

theorem isWhole_toDigits (n : Nat) : IsWhole (Nat.toDigits 10 n) := by
  rcases Nat.eq_zero_or_pos n with rfl | hn
  · exact .inl (Nat.toDigits_zero 10)
  · obtain ⟨c, digits, heq, hc⟩ := toDigits_eq_cons hn.ne'
    have hdigits := isDigit_toDigits (n := n)
    rw [heq, List.forall_mem_cons] at hdigits
    exact .inr ⟨c, digits, heq, hdigits.1, hc, hdigits.2⟩

/-- A whole number is read as it is written. -/
theorem ofChars?_integer {n : Int} (hn : (Number.integer n).Readable) :
    ∃ numeral, ofChars? (numberChars (.integer n)) = some numeral ∧ numeral.Complete ∧
      numeral.token = .number (some (.integer n)) := by
  obtain ⟨hlow, hhigh⟩ := hn
  have hchars : numberChars (.integer n) =
      (if decide (n < 0) = true then ['-'] else []) ++ Nat.toDigits 10 n.natAbs := by
    simp [numberChars]
  obtain ⟨numeral, left, hnumeral, hstage, hread⟩ :=
    ofChars?_whole (decide (n < 0)) (isWhole_toDigits n.natAbs)
  rw [Nat.ofDigitChars_ten_toDigits] at hread
  obtain ⟨hall, -, hfull⟩ := hread.all (by omega)
  have hvalue : wholeValue numeral.negative numeral.significand = some (.integer n) := by
    unfold wholeValue
    rw [hread.negative_eq, hall]
    by_cases hneg : n < 0
    · have hzero : numeral.significand ≠ 0 := by
        intro h
        rw [h] at hall
        simp at hall
        omega
      have hle : numeral.significand ≤ 0x8000000000000000 := by
        rw [UInt64.le_iff_toNat_le, hall]
        simp
        omega
      rw [if_pos (decide_eq_true hneg), if_neg hzero, if_pos hle]
      congr 2
      omega
    · rw [if_neg (by simpa using hneg)]
      congr 2
      omega
  refine ⟨numeral, hchars ▸ hnumeral, hstage.elim .inl fun h => .inr (.inl h), ?_⟩
  unfold token
  rcases hstage with hstage | hstage <;>
    simp only [hstage, hfull, Bool.false_eq_true, if_false, hvalue]

end Numeral

end CampusQuery.Json
