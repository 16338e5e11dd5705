import CampusQuery.Proofs.Double.Scaled
import CampusQuery.Proofs.Json.Numerals
/-!
Doubles and the doubles that their texts are read as.

The text of a finite double is always read as a finite double, though not always as the same one:
the reader goes by way of a power of ten. Texts with few digits are read as what they were written
for.
-/

namespace CampusQuery.Json.Numeral

variable {negative : Bool} {d : Digits}

/-! ### Texts with a point -/

theorem ofChars?_joined (negative : Bool) {whole places : List Char} (hwhole : IsWhole whole)
    (hne : places ≠ []) (hplaces : ∀ c ∈ places, c.isDigit = true) :
    ∃ n left, ofChars? (Double.joined negative whole places) = some n ∧ n.stage = .places ∧
      n.HasRead negative (Nat.ofDigitChars 10 (whole ++ places) 0) places.length left := by
  have htext : (if negative then ['-'] else []) ++ whole ≠ [] := by
    rcases hwhole with rfl | ⟨c, digits, rfl, -⟩ <;> simp
  have hpoint : (if places.isEmpty then [] else '.' :: places) = '.' :: places :=
    if_neg (by simpa using hne)
  obtain ⟨n, left, hn, hstage, hread⟩ := ofChars?_whole negative hwhole
  unfold Double.joined
  rw [hpoint, ofChars?_append htext, hn, Option.bind_some, Nat.ofDigitChars_append]
  exact feed_point hread hstage hne hplaces

theorem isWhole_positional (hd : d.digits ≠ 0) : IsWhole (Double.positional d).1 := by
  obtain ⟨c, digits, hdigits, hc⟩ := toDigits_eq_cons hd
  have hall := isDigit_toDigits (n := d.digits)
  rw [hdigits, List.forall_mem_cons] at hall
  unfold Double.positional Double.digitsOf
  rw [hdigits]
  simp only
  split_ifs with hexponent hlt
  · refine .inr ⟨c, digits ++ List.replicate d.exponent.toNat '0', rfl, hall.1, hc, ?_⟩
    rw [List.forall_mem_append]
    exact ⟨hall.2, Double.isDigit_replicate_zero⟩
  · obtain ⟨m, hm⟩ : ∃ m, (c :: digits).length - (-d.exponent).toNat = m + 1 :=
      ⟨(c :: digits).length - (-d.exponent).toNat - 1, by omega⟩
    rw [hm]
    exact .inr ⟨c, digits.take m, rfl, hall.1, hc, fun e he => hall.2 e (List.mem_of_mem_take he)⟩
  · exact .inl rfl

/-- A number without places is written with one. -/
def placesOf (d : Digits) : List Char :=
  if (Double.positional d).2.isEmpty then ['0'] else (Double.positional d).2

theorem placesOf_ne_nil (d : Digits) : placesOf d ≠ [] := by
  unfold placesOf
  split_ifs with hempty
  · simp
  · simpa using hempty

theorem isDigit_placesOf (d : Digits) : ∀ c ∈ placesOf d, c.isDigit = true := by
  have hdigits := Double.isDigit_positional d
  rw [List.forall_mem_append] at hdigits
  unfold placesOf
  split_ifs
  · simp
  · exact hdigits.2

/-- All digits together are those of the number, with a zero for each place of it that it does not
need. -/
theorem exists_ofDigitChars_placesOf (d : Digits) : ∃ k ≤ (d.exponent + 1).toNat,
    Nat.ofDigitChars 10 ((Double.positional d).1 ++ placesOf d) 0 = d.digits * 10 ^ k ∧
      d.exponent - k = -(placesOf d).length := by
  rcases lt_or_ge d.exponent 0 with hneg | hnonneg
  · obtain ⟨n, hn⟩ := Int.eq_ofNat_of_zero_le (show 0 ≤ -d.exponent by omega)
    have hlength : (Double.positional d).2.length = n := by
      unfold Double.positional
      simp only
      rw [if_neg (by omega), hn, Int.toNat_natCast]
      split_ifs
      · rw [List.length_drop]
        omega
      · rw [List.length_append, List.length_replicate]
        omega
    have hplaces : placesOf d = (Double.positional d).2 := by
      refine if_neg fun hempty => ?_
      rw [List.isEmpty_iff.1 hempty, List.length_nil] at hlength
      omega
    have hvalue := Double.ofDigitChars_positional d
    have hexponent : d.exponent = -(n : Int) := by omega
    rw [hlength, Digits.value, hexponent, zpow_neg, zpow_natCast,
      inv_mul_cancel_right₀ (by positivity)] at hvalue
    refine ⟨0, Nat.zero_le _, ?_, ?_⟩
    · rw [hplaces, pow_zero, Nat.mul_one]
      exact_mod_cast hvalue
    · rw [hplaces, hlength]
      omega
  · obtain ⟨n, hn⟩ := Int.eq_ofNat_of_zero_le hnonneg
    have hpositional : Double.positional d =
        (Nat.toDigits 10 d.digits ++ List.replicate n '0', []) := by
      simp [Double.positional, Double.digitsOf, hn]
    have hplaces : placesOf d = ['0'] := by
      rw [placesOf, hpositional]
      rfl
    have htext : Nat.toDigits 10 d.digits ++ List.replicate n '0' ++ ['0'] =
        Nat.toDigits 10 d.digits ++ List.replicate (n + 1) '0' := by
      rw [List.append_assoc, List.replicate_succ']
    refine ⟨n + 1, by omega, ?_, ?_⟩
    · rw [hplaces, hpositional, htext, Nat.ofDigitChars_append, Nat.ofDigitChars_ten_toDigits,
        Nat.ofDigitChars_replicate_zero, Nat.mul_comm]
    · rw [hplaces, hn, List.length_singleton]
      omega

/-! ### Texts with an exponent -/

/-- The digit before the point and the places, if there are some. -/
theorem feed_mantissa (negative : Bool) {c : Char} (hc : c.isDigit = true) (hne : c ≠ '0')
    {digits : List Char} (hdigits : ∀ d ∈ digits, d.isDigit = true) :
    ∃ (n : Numeral) (left : Nat), (ofChars? ((if negative then ['-'] else []) ++ [c])).bind
        (·.feed (if digits = [] then [] else '.' :: digits)) = some n ∧
      (n.stage = .zero ∨ n.stage = .whole ∨ n.stage = .places) ∧
      n.HasRead negative (Nat.ofDigitChars 10 (c :: digits) 0) digits.length left := by
  have hwhole : IsWhole [c] := .inr ⟨c, [], rfl, hc, hne, by simp⟩
  obtain ⟨n, left, hn, hstage, hread⟩ := ofChars?_whole negative hwhole
  rw [hn, Option.bind_some]
  by_cases hnil : digits = []
  · subst hnil
    exact ⟨n, left, rfl, hstage.imp_right .inl, hread⟩
  · obtain ⟨n', left', hn', hstage', hread'⟩ := feed_point hread hstage hnil hdigits
    rw [if_neg hnil]
    rw [← Nat.ofDigitChars_append] at hread'
    exact ⟨n', left', hn', .inr (.inr hstage'), hread'⟩

theorem ofChars?_scientific (negative : Bool) (hd : d.digits ≠ 0) :
    ∃ (n : Numeral) (places left : Nat) (e : Int),
      ofChars? ((if negative then ['-'] else []) ++ Double.scientific d) =
        some { n with
          stage := .exponent
          exponentNegative := decide (e < 0)
          exponent := e.natAbs } ∧
      n.HasRead negative d.digits places left ∧ e - places = d.exponent := by
  obtain ⟨c, digits, hdigits, hc⟩ := toDigits_eq_cons hd
  have hall := isDigit_toDigits (n := d.digits)
  have hvalue := Nat.ofDigitChars_ten_toDigits (n := d.digits)
  rw [hdigits] at hall hvalue
  rw [List.forall_mem_cons] at hall
  have htext (e : Int) (he : e = d.exponent + (c :: digits).length - 1) :
      (if negative then ['-'] else []) ++ Double.scientific d =
      ((if negative then ['-'] else []) ++ [c]) ++
        ((if digits = [] then [] else '.' :: digits) ++
          'e' :: (if decide (e < 0) = true then '-' else '+') :: Nat.toDigits 10 e.natAbs) := by
    simp only [Double.scientific, Double.digitsOf, hdigits, ← he, decide_eq_true_eq]
    cases digits <;> simp
  obtain ⟨n, left, hn, hstage, hread⟩ := feed_mantissa negative hall.1 hc hall.2
  generalize he : d.exponent + (c :: digits).length - 1 = e at htext
  rw [htext e rfl, ofChars?_append (by simp)]
  simp only [feed_append]
  rw [← Option.bind_assoc, hn, Option.bind_some, feed_exponent hstage hread.exponentNegative_eq
    (decide (e < 0)) Nat.toDigits_ne_nil isDigit_toDigits, Nat.ofDigitChars_ten_toDigits]
  refine ⟨n, digits.length, left, e, rfl, hvalue ▸ hread, ?_⟩
  rw [← he, List.length_cons]
  omega

theorem token_exponent (n : Numeral) (e : Int) :
    token { n with
      stage := .exponent
      exponentNegative := decide (e < 0)
      exponent := e.natAbs } =
      .number (finite? (.scaled n.negative n.significand (n.power + e))) := by
  have he : (if decide (e < 0) = true then -(e.natAbs : Int) else e.natAbs) = e := by
    by_cases hneg : e < 0
    · rw [if_pos (decide_eq_true hneg)]
      omega
    · rw [if_neg (by simpa using hneg)]
      omega
  simp only [token, doubleValue, he]

theorem HasRead.token_places {n : Numeral} {digits places left : Nat}
    (h : n.HasRead negative digits places left) (hn : n.stage = .places) :
    n.token = .number (finite? (.scaled n.negative n.significand n.power)) := by
  have hpower : n.power + (0 : Nat) = n.power := by omega
  simp only [token, hn, doubleValue, h.exponentNegative_eq, h.exponent_eq, hpower,
    Bool.false_eq_true, if_false]

/-! ### Texts of doubles -/

theorem digits_shortest_ne_zero {x : Double} (hx : x.isFinite = true) (hzero : x.magnitude ≠ 0) :
    (x.shortest .toEven).digits ≠ 0 := by
  intro heq
  have hread := Double.toDouble_shortest .toEven hx hzero
  have hmagnitude : x.magnitude = 0 := by
    rw [← hread, Digits.toDouble, heq]
    simp [Double.ofDecimal, Double.magnitude_ofMagnitude]
  exact hzero hmagnitude

/-- Either text of a number has its shortest digits, behind which there may be zeros. -/
theorem ofChars?_jsonChars {x : Double} (hx : x.isFinite = true) (hzero : x.magnitude ≠ 0)
    (hd : x.shortest .toEven = d) :
    ∃ (n numeral : Numeral) (k places left : Nat) (e : Int),
      ofChars? x.jsonChars = some numeral ∧
      numeral.token = .number (finite? (.scaled n.negative n.significand (n.power + e))) ∧
      n.HasRead x.negative (d.digits * 10 ^ k) places left ∧
      e - places = d.exponent - k ∧ k ≤ (d.exponent + 1).toNat := by
  have hne := digits_shortest_ne_zero hx hzero
  unfold Double.jsonChars
  rw [hd] at hne ⊢
  rw [if_neg hzero]
  simp only
  split
  · obtain ⟨k, hk, hdigits, hexponent⟩ := exists_ofDigitChars_placesOf d
    obtain ⟨n, left, hn, hstage, hread⟩ := ofChars?_joined x.negative (isWhole_positional hne)
      (placesOf_ne_nil d) (isDigit_placesOf d)
    rw [hdigits] at hread
    refine ⟨n, n, k, _, left, 0, hn, ?_, hread, ?_, hk⟩
    · rw [hread.token_places hstage, add_zero]
    · rw [hexponent, zero_sub]
  · obtain ⟨n, places, left, e, hn, hread, hexponent⟩ := ofChars?_scientific x.negative hne
    refine ⟨n, _, 0, places, left, e, hn, token_exponent n e, ?_, ?_, Nat.zero_le _⟩
    · rwa [pow_zero, Nat.mul_one]
    · rw [hexponent, Nat.cast_zero, sub_zero]

/-- The text of a zero. -/
theorem ofChars?_jsonChars_of_zero {x : Double} (hzero : x.magnitude = 0) :
    ∃ n, ofChars? x.jsonChars = some n ∧ n.token = .number (some (.double x)) := by
  have hread : ∀ negative, (ofChars? (Double.joined negative ['0'] ['0'])).map token =
      some (.number (some (.double (Double.ofMagnitude negative 0)))) := by
    decide +kernel
  have hx := Double.ofMagnitude_magnitude x
  rw [hzero] at hx
  have hjoined := hread x.negative
  rw [hx] at hjoined
  rw [Double.jsonChars, if_pos hzero]
  exact Option.map_eq_some_iff.1 hjoined

/-- The text of the greatest double is read as a finite one. -/
theorem exists_token_greatest : ∀ negative : Bool,
    ((ofChars? (Double.ofMagnitude negative Double.greatest).jsonChars).map fun n =>
      match n.token with
      | .number (some (.double _)) => true
      | _ => false) = some true := by
  decide +kernel

/-- The text of a finite double is read as a finite double. Below the greatest double, what is kept
of the digits stands for a number that is no larger than theirs, and does not become infinite. -/
theorem exists_ofChars?_jsonChars {x : Double} (hx : x.isFinite = true) :
    ∃ n y, ofChars? x.jsonChars = some n ∧ n.token = .number (some (.double y)) := by
  by_cases hzero : x.magnitude = 0
  · obtain ⟨n, hn, htoken⟩ := ofChars?_jsonChars_of_zero hzero
    exact ⟨n, x, hn, htoken⟩
  by_cases hgreatest : x.magnitude = Double.greatest
  · have hread := exists_token_greatest x.negative
    rw [← hgreatest, Double.ofMagnitude_magnitude] at hread
    obtain ⟨n, hn, htoken⟩ := Option.map_eq_some_iff.1 hread
    split at htoken
    · next y heq => exact ⟨n, y, hn, heq⟩
    · cases htoken
  · obtain ⟨n, numeral, k, places, left, e, hnumeral, htoken, hread, hexponent, -⟩ :=
      ofChars?_jsonChars hx hzero rfl
    have hlt : ((x.shortest .toEven).toDouble x.negative).magnitude < Double.greatest := by
      have hfinite : x.magnitude < Double.infinity := of_decide_eq_true hx
      rw [Double.toDouble_shortest .toEven hx hzero]
      unfold Double.greatest at hgreatest ⊢
      unfold Double.infinity at hfinite
      omega
    have hvalue : (((x.shortest .toEven).digits * 10 ^ k : Nat) : ℚ) * 10 ^ (e - places) =
        (x.shortest .toEven).value := by
      rw [hexponent, zpow_sub₀ (by norm_num), zpow_natCast, Nat.cast_mul, Nat.cast_pow,
        Nat.cast_ofNat, mul_assoc, mul_div_cancel₀ _ (by positivity), Digits.value]
    have hfinite := Double.isFinite_scaled n.negative
      ((hread.le e).trans_lt (hvalue.trans_lt (Double.value_lt_greatestFrom hlt)))
    exact ⟨numeral, _, hnumeral, htoken.trans (congrArg Token.number (if_pos hfinite))⟩

theorem complete_of_token {n : Numeral} {value : Option Number} (h : n.token = .number value) :
    n.Complete := by
  unfold token at h
  unfold Complete
  split at h <;> simp_all

end CampusQuery.Json.Numeral

namespace CampusQuery

open Json (numberChars)
open Json.Numeral (ofChars? token)

/-! ### Doubles read again -/

/-- The double that the text of `x` is read as. A number that is not finite has no text and stays as
it is. -/
def Double.reread (x : Double) : Double :=
  match (ofChars? (numberChars (.double x))).map token with
  | some (.number (some (.double y))) => y
  | _ => x

namespace Double

variable {x y : Double}

theorem reread_of_not_finite (hx : x.isFinite = false) : x.reread = x := by
  simp [reread, numberChars, hx, ofChars?, Json.Numeral.start?, Json.Numeral.digit?]

theorem ofChars?_reread (hx : x.isFinite = true) :
    ∃ n, ofChars? x.jsonChars = some n ∧ n.token = .number (some (.double x.reread)) := by
  obtain ⟨n, y, hn, htoken⟩ := Json.Numeral.exists_ofChars?_jsonChars hx
  have hchars : numberChars (.double x) = x.jsonChars := if_pos hx
  refine ⟨n, hn, ?_⟩
  rw [reread, hchars, hn, Option.map_some, htoken]

theorem isFinite_reread (x : Double) : x.reread.isFinite = x.isFinite := by
  cases hx : x.isFinite with
  | false => rw [reread_of_not_finite hx, hx]
  | true =>
    obtain ⟨n, -, htoken⟩ := ofChars?_reread hx
    have hreadable := n.readable_token
    rw [htoken] at hreadable
    exact hreadable

/-- A number comes back if its text has a significand of up to fifty-three bits and no more than
twenty-two places. -/
theorem reread_eq_self {d : Digits} (hd : x.shortest .toEven = d) (hexponent : -22 ≤ d.exponent)
    (hdigits : d.digits * 10 ^ (d.exponent + 1).toNat ≤ 2 ^ 53) : x.reread = x := by
  cases hx : x.isFinite with
  | false => exact reread_of_not_finite hx
  | true =>
    obtain ⟨n, hn, htoken⟩ := ofChars?_reread hx
    by_cases hzero : x.magnitude = 0
    · obtain ⟨n', hn', htoken'⟩ := Json.Numeral.ofChars?_jsonChars_of_zero hzero
      obtain rfl : n = n' := Option.some.inj (hn.symm.trans hn')
      simpa [htoken] using htoken'
    · obtain ⟨m, numeral, k, places, left, e, hnumeral, htoken', hread, hplaces, hk⟩ :=
        Json.Numeral.ofChars?_jsonChars hx hzero hd
      obtain rfl : n = numeral := Option.some.inj (hn.symm.trans hnumeral)
      have hne : d.digits ≠ 0 := hd ▸ Json.Numeral.digits_shortest_ne_zero hx hzero
      have hpow : 10 ^ k ≤ 10 ^ (d.exponent + 1).toNat := Nat.pow_le_pow_right (by decide) hk
      have hbits : d.digits * 10 ^ k ≤ 2 ^ 53 :=
        (Nat.mul_le_mul_left d.digits hpow).trans hdigits
      obtain ⟨hall, hpower, -⟩ := hread.all (hbits.trans_lt (by decide))
      have hsmall : (d.exponent + 1).toNat < 16 := by
        by_contra hge
        have hlarge : 10 ^ 16 ≤ 10 ^ (d.exponent + 1).toNat :=
          Nat.pow_le_pow_right (by decide) (by omega)
        have hmul := Nat.le_mul_of_pos_left (10 ^ (d.exponent + 1).toNat) (Nat.pos_of_ne_zero hne)
        omega
      have hscaled : scaled m.negative m.significand (m.power + e) = x := by
        rw [scaled_eq_ofDecimal m.negative (by omega) (by omega) (by omega), hall,
          hread.negative_eq, show m.power + e = d.exponent - k by omega, ofDecimal_mul_ten_pow]
        exact hd ▸ toDouble_shortest .toEven hx hzero
      rw [htoken, hscaled, Json.Numeral.finite?, if_pos hx] at htoken'
      simpa using htoken'

/-- A mean with two places comes back; one with fourteen need not. -/
example : (ofDecimal false 9054 (-2)).reread = ofDecimal false 9054 (-2) ∧
    (ofDecimal false 10000000000000001 (-14)).reread = ofInt 100 := by decide +kernel

end Double

/-- The number that the text of a number is read as. -/
def Number.reread : Number → Number
  | .integer n => .integer n
  | .double x => .double x.reread

/-- A whole number is read as it is written, and a double as `reread` says. -/
theorem Json.Numeral.ofChars?_numberChars {n : Number} (hn : n.Readable) :
    ∃ numeral, ofChars? (numberChars n) = some numeral ∧ numeral.Complete ∧
      numeral.token = .number (some n.reread) := by
  cases n with
  | integer n => exact ofChars?_integer hn
  | double x =>
    have hchars : numberChars (.double x) = x.jsonChars := if_pos hn
    obtain ⟨numeral, hnumeral, htoken⟩ := Double.ofChars?_reread hn
    exact ⟨numeral, hchars ▸ hnumeral, complete_of_token htoken, htoken⟩

end CampusQuery
