import CampusQuery.Json.Writer
import CampusQuery.Json.Token
import Mathlib.Tactic.IntervalCases
/-!
Strings are read as they are written.
-/

namespace CampusQuery.Json

namespace StringPart

/-- The string after more of its text, if the text does not close it. -/
def feed (s : StringPart) : List Char → Option StringPart
  | [] => some s
  | c :: text =>
    match s.push (.char c) with
    | .more s => s.feed text
    | _ => none

theorem feed_append (s : StringPart) (text text' : List Char) :
    s.feed (text ++ text') = (s.feed text).bind (·.feed text') := by
  induction text generalizing s with
  | nil => rfl
  | cons c text ih =>
    simp only [List.cons_append, feed]
    split
    · exact ih _
    · rfl

/-- A control character, which is escaped by its number. -/
theorem feed_control (l : List Char) {n : Nat} (hn : n < 0x20) :
    feed ⟨some l, .plain⟩ ['\\', 'u', '0', '0', hexDigit (n / 16), hexDigit n] =
      some ⟨some (Char.ofNat n :: l), .plain⟩ := by
  interval_cases n <;> rfl

theorem feed_escaped (l : List Char) (c : Char) :
    feed ⟨some l, .plain⟩ (escaped c) = some ⟨some (c :: l), .plain⟩ := by
  unfold escaped
  split_ifs with hquote hbackslash hfeed hreturn htab hback hform hcontrol
  · subst hquote
    rfl
  · subst hbackslash
    rfl
  · subst hfeed
    rfl
  · subst hreturn
    rfl
  · subst htab
    rfl
  · subst hback
    rfl
  · subst hform
    rfl
  · rw [feed_control l hcontrol, Char.ofNat_toNat]
  · simp [feed, push, pushPlain, hquote, hbackslash, hcontrol, add]

theorem feed_flatMap_escaped (text l : List Char) :
    feed ⟨some l, .plain⟩ (text.flatMap escaped) = some ⟨some (text.reverse ++ l), .plain⟩ := by
  induction text generalizing l with
  | nil => rfl
  | cons c text ih =>
    rw [List.flatMap_cons, feed_append, feed_escaped, Option.bind_some, ih]
    simp

end StringPart

end CampusQuery.Json
