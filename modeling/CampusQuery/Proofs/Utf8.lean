import CampusQuery.Json.Token
import Mathlib.Data.List.Basic
import Mathlib.Tactic.SplitIfs
/-!
Texts and their bytes in UTF-8.

The symbols of the bytes of a text are its characters. The bytes of two texts are in the same order
as the texts.
-/

namespace CampusQuery

/-! ### Reading bytes -/

namespace Json.Text

theorem decodeFrom_utf8Encode (text : List Char) (front : ByteArray) (done : Text) :
    decodeFrom (front ++ text.utf8Encode) front.size done = (text.map .char).reverse ++ done := by
  induction text generalizing front done with
  | nil =>
    rw [decodeFrom, dif_neg (by simp)]
    rfl
  | cons c text ih =>
    have hfront : front ++ (c :: text).utf8Encode =
        (front ++ [c].utf8Encode) ++ text.utf8Encode := by
      rw [List.utf8Encode_cons, ByteArray.append_assoc]
    have hsize : (front ++ [c].utf8Encode).size = front.size + c.utf8Size := by
      simp [List.utf8Encode_singleton]
    have hlt : front.size < (front ++ (c :: text).utf8Encode).size := by
      have hpos := c.utf8Size_pos
      rw [hfront, ByteArray.size_append, hsize]
      omega
    have hchar : (front ++ (c :: text).utf8Encode).utf8DecodeChar? front.size = some c := by
      rw [ByteArray.utf8DecodeChar?_eq_utf8DecodeChar?_extract, ByteArray.size_append,
        ByteArray.extract_append_eq_right rfl rfl, List.utf8DecodeChar?_utf8Encode_cons]
    rw [decodeFrom, dif_pos hlt]
    split
    · next c' hc' =>
      obtain rfl : c = c' := Option.some.inj (hchar.symm.trans hc')
      rw [← hsize, hfront, ih]
      simp
    · next hnone =>
      rw [hchar] at hnone
      cases hnone

/-- The bytes of a string have no others between its characters. -/
theorem ofBytes_toUTF8 (s : String) : ofBytes s.toUTF8 = ofString s := by
  have hdecode := decodeFrom_utf8Encode s.toList ByteArray.empty []
  rw [ByteArray.empty_append, ByteArray.size_empty] at hdecode
  obtain ⟨text, rfl⟩ : ∃ text, s = .ofList text := ⟨s.toList, by simp⟩
  simp only [String.toList_ofList] at hdecode
  rw [ofBytes, String.toUTF8_eq_toByteArray, String.toByteArray_ofList, hdecode, ofString]
  simp

end Json.Text

/-! ### The order of bytes -/

/-- The bytes of a text. -/
def utf8 (s : String) : List UInt8 :=
  s.toUTF8.data.toList

theorem utf8_ofList (text : List Char) :
    utf8 (.ofList text) = text.flatMap String.utf8EncodeChar := by
  simp [utf8, List.utf8Encode]

theorem utf8_injective : Function.Injective utf8 := by
  intro s s' h
  rw [utf8, utf8, Array.toList_inj] at h
  exact String.toByteArray_inj.1 (ByteArray.ext h)

theorem ofNat_cons_lt_iff {m n : Nat} (hm : m < 256) (hn : n < 256) {bytes bytes' : List UInt8} :
    UInt8.ofNat m :: bytes < UInt8.ofNat n :: bytes' ↔ m < n ∨ m = n ∧ bytes < bytes' := by
  rw [List.cons_lt_cons_iff, UInt8.lt_iff_toNat_lt, ← UInt8.toNat_inj, UInt8.toNat_ofNat_of_lt' hm,
    UInt8.toNat_ofNat_of_lt' hn]

/-- The first byte in which two characters differ decides. -/
theorem utf8EncodeChar_append_lt {c d : Char} (h : c < d) (bytes bytes' : List UInt8) :
    String.utf8EncodeChar c ++ bytes < String.utf8EncodeChar d ++ bytes' := by
  have hlt : c.val.toNat < d.val.toNat := h
  have hd : d.val.toNat < 0x110000 := by
    have hvalid := d.valid
    simp only [UInt32.isValidChar, Nat.isValidChar] at hvalid
    omega
  have hdigit {m n : Nat} (hmn : m ≤ n) :
      m / 64 < n / 64 ∨ m / 64 = n / 64 ∧ m % 64 ≤ n % 64 := by
    omega
  have hlast := hdigit (Nat.le_of_lt hlt)
  have hmiddle := hdigit (Nat.div_le_div_right (c := 64) (Nat.le_of_lt hlt))
  have hfirst := hdigit (Nat.div_le_div_right (c := 4096) (Nat.le_of_lt hlt))
  simp only [Nat.div_div_eq_div_mul] at hmiddle hfirst
  have hctop : c.val.toNat / 262144 % 8 = c.val.toNat / 262144 := Nat.mod_eq_of_lt (by omega)
  have hdtop : d.val.toNat / 262144 % 8 = d.val.toNat / 262144 := Nat.mod_eq_of_lt (by omega)
  unfold String.utf8EncodeChar
  dsimp only
  split_ifs <;> simp (disch := omega) only [List.cons_append, List.nil_append, ofNat_cons_lt_iff,
    hctop, hdtop]
  all_goals omega

theorem flatMap_utf8EncodeChar_lt {text text' : List Char} (h : text < text') :
    text.flatMap String.utf8EncodeChar < text'.flatMap String.utf8EncodeChar := by
  induction h with
  | nil =>
    obtain ⟨byte, bytes, hbytes⟩ := List.exists_cons_of_ne_nil String.utf8EncodeChar_ne_nil
    rw [List.flatMap_cons, List.flatMap_nil, hbytes]
    exact List.nil_lt_cons byte _
  | rel hcd =>
    rw [List.flatMap_cons, List.flatMap_cons]
    exact utf8EncodeChar_append_lt hcd _ _
  | cons _ ih =>
    rw [List.flatMap_cons, List.flatMap_cons]
    exact List.append_left_lt ih

theorem compare_bytes_of_lt {bytes bytes' : List UInt8} (h : bytes < bytes') :
    compare bytes bytes' = .lt := by
  induction h with
  | nil => exact List.compare_nil_cons
  | rel hxy => rw [List.compare_cons_cons, Std.compare_eq_lt.2 hxy, Ordering.lt_then]
  | cons _ ih => rw [List.compare_cons_cons, Std.ReflOrd.compare_self, Ordering.eq_then, ih]

theorem compare_utf8_of_lt {s s' : String} (h : s < s') : compare (utf8 s) (utf8 s') = .lt := by
  apply compare_bytes_of_lt
  rw [← String.ofList_toList (s := s), ← String.ofList_toList (s := s'), utf8_ofList, utf8_ofList]
  exact flatMap_utf8EncodeChar_lt (String.lt_iff.1 h)

/-- Texts are in the order of their bytes. -/
theorem compare_utf8 (s s' : String) : compare (utf8 s) (utf8 s') = compare s s' := by
  have hlt {s s' : String} (h : s < s') : compare s s' = .lt :=
    compareOfLessAndEq_eq_lt.2 h
  by_cases h : s < s'
  · rw [compare_utf8_of_lt h, hlt h]
  · by_cases h' : s' < s
    · rw [Std.OrientedOrd.eq_swap, compare_utf8_of_lt h', Std.OrientedOrd.eq_swap, hlt h']
    · obtain rfl : s = s' := String.le_antisymm (String.not_lt.1 h') (String.not_lt.1 h)
      rw [Std.ReflOrd.compare_self, Std.ReflOrd.compare_self]

end CampusQuery
