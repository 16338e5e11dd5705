import CampusQuery.Proofs.Utf8
import CampusQuery.Storage.FileName
import Mathlib.Data.List.Basic
import Mathlib.Tactic.SplitIfs
/-!
The names of the files of datasets.

Different datasets have files of different names, unless the digests of two long names are the same.
The name of a file says which stem it has, and it is never the name of a leftover.
-/

namespace CampusQuery.Storage

/-! ### Hexadecimal forms -/

theorem digitChar_mem {n : Nat} (hn : n < 16) : n.digitChar ∈ "0123456789abcdef".toList := by
  have hall : ∀ n < 16, n.digitChar ∈ "0123456789abcdef".toList := by decide
  exact hall n hn

theorem digitChar_inj {m n : Nat} (hm : m < 16) (hn : n < 16) (h : m.digitChar = n.digitChar) :
    m = n := by
  have hall : ∀ m < 16, ∀ n < 16, m.digitChar = n.digitChar → m = n := by decide
  exact hall m hm n hn h

theorem mem_of_mem_hex {bytes : List UInt8} {c : Char} (hc : c ∈ hex bytes) :
    c ∈ "0123456789abcdef".toList := by
  obtain ⟨b, -, hb⟩ := List.mem_flatMap.1 hc
  have hlt := b.toNat_lt
  simp only [List.mem_cons, List.not_mem_nil, or_false] at hb
  rcases hb with rfl | rfl
  · exact digitChar_mem (by omega)
  · exact digitChar_mem (by omega)

theorem length_hex (bytes : List UInt8) : (hex bytes).length = 2 * bytes.length := by
  induction bytes with
  | nil => rfl
  | cons b bytes ih =>
    change (hex bytes).length + 2 = 2 * (bytes.length + 1)
    omega

theorem hex_injective : Function.Injective hex := by
  intro bytes bytes' h
  induction bytes generalizing bytes' with
  | nil =>
    cases bytes' with
    | nil => rfl
    | cons => cases h
  | cons b bytes ih =>
    cases bytes' with
    | nil => cases h
    | cons b' bytes' =>
      obtain ⟨hhigh, hlow, hrest⟩ : (b.toNat / 16).digitChar = (b'.toNat / 16).digitChar ∧
          (b.toNat % 16).digitChar = (b'.toNat % 16).digitChar ∧ hex bytes = hex bytes' := by
        simpa [hex] using h
      have hlt := b.toNat_lt
      have hlt' := b'.toNat_lt
      have hhigh := digitChar_inj (by omega) (by omega) hhigh
      have hlow := digitChar_inj (by omega) (by omega) hlow
      obtain rfl : b = b' := UInt8.toNat_inj.1 (by omega)
      rw [ih hrest]

/-! ### Stems -/

/-- No two of the names that are too long for a hexadecimal form have one digest. -/
def DigestsApart (ids : List String) : Prop :=
  ∀ id ∈ ids, ∀ id' ∈ ids, 64 < id.utf8ByteSize → 64 < id'.utf8ByteSize →
    nameIdentifier (utf8 id) = nameIdentifier (utf8 id') → id = id'

theorem length_utf8 (s : String) : (utf8 s).length = s.utf8ByteSize :=
  rfl

theorem toList_stemOf_of_le {id : String} (h : id.utf8ByteSize ≤ 64) :
    (stemOf id).toList = hex (utf8 id) := by
  have hlength := length_hex (utf8 id)
  rw [length_utf8] at hlength
  have hstem : stemOf id = .ofList (hex (utf8 id)) := by
    refine if_pos ?_
    change (hex (utf8 id)).length ≤ 128
    omega
  rw [hstem, String.toList_ofList]

/-- Behind the mark stands what no hexadecimal form has. -/
theorem toList_stemOf_of_lt {id : String} (h : 64 < id.utf8ByteSize) :
    (stemOf id).toList = 'i' :: 'd' :: '-' :: hex (nameIdentifier (utf8 id)) := by
  have hlength := length_hex (utf8 id)
  rw [length_utf8] at hlength
  have hstem : stemOf id = "id-" ++ .ofList (hex (nameIdentifier (utf8 id))) := by
    refine if_neg ?_
    change ¬ (hex (utf8 id)).length ≤ 128
    omega
  simp [hstem]

theorem hex_ne_cons_i (bytes : List UInt8) (l : List Char) : hex bytes ≠ 'i' :: l := by
  intro h
  have hmem : 'i' ∈ hex bytes := by
    rw [h]
    exact List.mem_cons_self
  exact absurd (mem_of_mem_hex hmem) (by decide)

/-- Different names have different stems. -/
theorem eq_of_stemOf_eq {ids : List String} (hids : DigestsApart ids) {id id' : String}
    (hid : id ∈ ids) (hid' : id' ∈ ids) (h : stemOf id = stemOf id') : id = id' := by
  have h := congrArg String.toList h
  rcases Nat.lt_or_ge 64 id.utf8ByteSize with hlong | hshort <;>
    rcases Nat.lt_or_ge 64 id'.utf8ByteSize with hlong' | hshort'
  · rw [toList_stemOf_of_lt hlong, toList_stemOf_of_lt hlong'] at h
    simp only [List.cons.injEq, true_and] at h
    exact hids id hid id' hid' hlong hlong' (hex_injective h)
  · rw [toList_stemOf_of_lt hlong, toList_stemOf_of_le hshort'] at h
    exact absurd h.symm (hex_ne_cons_i _ _)
  · rw [toList_stemOf_of_le hshort, toList_stemOf_of_lt hlong'] at h
    exact absurd h (hex_ne_cons_i _ _)
  · rw [toList_stemOf_of_le hshort, toList_stemOf_of_le hshort'] at h
    exact utf8_injective (hex_injective h)

theorem mem_of_mem_stemOf {id : String} {c : Char} (hc : c ∈ (stemOf id).toList) :
    c ∈ "-i0123456789abcdef".toList := by
  have hhex {bytes : List UInt8} (hc : c ∈ hex bytes) : c ∈ "-i0123456789abcdef".toList :=
    List.mem_append_right ['-', 'i'] (mem_of_mem_hex hc)
  rcases Nat.lt_or_ge 64 id.utf8ByteSize with hlong | hshort
  · rw [toList_stemOf_of_lt hlong] at hc
    simp only [List.mem_cons] at hc
    rcases hc with rfl | rfl | rfl | hc
    · decide
    · decide
    · decide
    · exact hhex hc
  · rw [toList_stemOf_of_le hshort] at hc
    exact hhex hc

theorem length_stemOf_le (id : String) : (stemOf id).toList.length ≤ 128 := by
  rcases Nat.lt_or_ge 64 id.utf8ByteSize with hlong | hshort
  · have hdigest : (nameIdentifier (utf8 id)).length ≤ 16 := by
      rw [nameIdentifier, List.length_mapIdx]
      exact List.length_take_le 16 _
    rw [toList_stemOf_of_lt hlong]
    simp only [List.length_cons, length_hex]
    omega
  · rw [toList_stemOf_of_le hshort, length_hex, length_utf8]
    omega

theorem stemOf_ne_nil {id : String} (h : id ≠ "") : (stemOf id).toList ≠ [] := by
  rcases Nat.lt_or_ge 64 id.utf8ByteSize with hlong | hshort
  · rw [toList_stemOf_of_lt hlong]
    exact List.cons_ne_nil _ _
  · rw [toList_stemOf_of_le hshort]
    intro hnil
    exact h (utf8_injective (hex_injective hnil))

/-! ### Names of files -/

theorem splitExtension?_append {stem : List Char} (hstem : stem ≠ []) :
    splitExtension? (stem ++ ['.', 'j', 's', 'o', 'n']) = some (stem, ['j', 's', 'o', 'n']) := by
  have hextension :
      (((stem ++ ['.', 'j', 's', 'o', 'n']).reverse.takeWhile (· ≠ '.')).reverse) =
        ['j', 's', 'o', 'n'] := by
    simp
  have hne : stem ++ ['.', 'j', 's', 'o', 'n'] ≠ ['.', '.'] := by
    intro h
    have hlength := congrArg List.length h
    simp at hlength
  rw [splitExtension?, hextension]
  simp [hstem, hne]

theorem toList_fileName (id : String) :
    (fileName id).toList = (stemOf id).toList ++ ['.', 'j', 's', 'o', 'n'] := by
  simp [fileName]

/-- The name of the file of a dataset is taken apart as it is put together. -/
theorem datasetStem?_fileName {id : String} (h : id ≠ "") :
    datasetStem? (fileName id) = some (stemOf id) := by
  have hhead : (stemOf id).toList.head? ≠ some '.' := by
    intro hdot
    exact absurd (mem_of_mem_stemOf (List.mem_of_head? hdot)) (by decide)
  rw [datasetStem?, toList_fileName, splitExtension?_append (stemOf_ne_nil h)]
  dsimp only
  rw [if_pos ⟨rfl, hhead⟩, String.ofList_toList]

/-- What is taken apart at its last point is put together again with a point. -/
theorem eq_append_of_splitExtension? {name stem extension : List Char}
    (h : splitExtension? name = some (stem, extension)) : name = stem ++ '.' :: extension := by
  unfold splitExtension? at h
  dsimp only at h
  split_ifs at h with hparts
  obtain ⟨back, front, hcut, hback⟩ := List.eq_append_cons_of_mem (List.mem_reverse.2 hparts.1)
  have hextension : name.reverse.takeWhile (· ≠ '.') = back := by
    rw [hcut, List.takeWhile_append_of_pos fun c hc => by simpa using ne_of_mem_of_not_mem hc hback,
      List.takeWhile_cons_of_neg (by simp), List.append_nil]
  have hname : name = front.reverse ++ '.' :: back.reverse := by
    simpa using List.reverse_eq_append_iff.1 hcut
  have hstem : name.take (name.length - back.reverse.length - 1) = front.reverse := by
    rw [hname]
    apply List.take_left'
    simp only [List.length_append, List.length_cons, List.length_reverse]
    omega
  rw [hextension, hstem] at h
  cases h
  exact hname

theorem eq_append_of_datasetStem? {name stem : String} (h : datasetStem? name = some stem) :
    name = stem ++ ".json" := by
  unfold datasetStem? at h
  split at h
  · next characters extension hsplit =>
    split_ifs at h with hparts
    cases h
    rw [← String.toList_inj, eq_append_of_splitExtension? hsplit, hparts.1]
    simp
  · cases h

theorem fileName_inj {ids : List String} (hids : DigestsApart ids) {id id' : String}
    (hid : id ∈ ids) (hid' : id' ∈ ids) : fileName id = fileName id' ↔ id = id' := by
  constructor
  · intro h
    exact eq_of_stemOf_eq hids hid hid' (String.append_left_inj _ |>.1 h)
  · rintro rfl
    rfl

theorem isLeftover_append_json (stem : String) : isLeftover (stem ++ ".json") = false := by
  have hsuffix : ['.', 't', 'm', 'p'].isSuffixOf (stem ++ ".json").toList = false := by
    rw [String.toList_append, List.isSuffixOf, List.reverse_append]
    rfl
  rw [isLeftover, hsuffix, Bool.and_false]

theorem isLeftover_fileName (id : String) : isLeftover (fileName id) = false :=
  isLeftover_append_json (stemOf id)

/-- A leftover is no file of a dataset. -/
theorem datasetStem?_of_isLeftover {name : String} (h : isLeftover name = true) :
    datasetStem? name = none := by
  cases hstem : datasetStem? name with
  | none => rfl
  | some stem =>
    rw [eq_append_of_datasetStem? hstem, isLeftover_append_json] at h
    cases h

theorem utf8ByteSize_stemOf_le (id : String) : (stemOf id).utf8ByteSize ≤ 128 := by
  have hone : ∀ c ∈ (stemOf id).toList, (String.utf8EncodeChar c).length = 1 := by
    have hall : ("-i0123456789abcdef".toList.all fun c =>
        decide ((String.utf8EncodeChar c).length = 1)) = true := by
      decide
    exact fun c hc => of_decide_eq_true (List.all_eq_true.1 hall c (mem_of_mem_stemOf hc))
  have hlength := length_stemOf_le id
  rw [← length_utf8, ← String.ofList_toList (s := stemOf id), utf8_ofList, List.length_flatMap,
    List.map_congr_left hone]
  simpa using hlength

theorem utf8ByteSize_fileName_le (id : String) : (fileName id).utf8ByteSize ≤ 133 := by
  have hstem := utf8ByteSize_stemOf_le id
  rw [fileName, String.utf8ByteSize_append]
  change _ + 5 ≤ 133
  omega

/-- The longest name that writing a dataset needs. -/
theorem utf8ByteSize_anyTemporaryName_le (id : String) :
    (anyTemporaryName id).utf8ByteSize ≤ 166 := by
  have hstem := utf8ByteSize_stemOf_le id
  have hmark : (String.ofList (List.replicate 32 '0')).utf8ByteSize = 32 := by decide
  rw [anyTemporaryName, temporaryName]
  simp only [String.utf8ByteSize_append, hmark]
  change 1 + _ + 1 + 32 + 4 ≤ 166
  omega

end CampusQuery.Storage
