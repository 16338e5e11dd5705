import CampusQuery.Proofs.Json.Reordering
/-!
The reader of values takes what is written.

A value in which no object has a name twice is settled as it stands, so its compact text is read as
the value with its numbers read again, as long as arrays and objects do not lie deeper in one
another than the reader allows. The reader hands on no number that a text cannot have.
-/

namespace CampusQuery.Json

mutual
/-- There is nothing to settle in a value whose objects have each name once. -/
theorem settled_eq_self : (j : Json) → j.NamesOnce → j.settled = j
  | .array items, h => by
    rw [NamesOnce] at h
    rw [settled, settledItems_eq_self items h]
  | .object members, h => by
    rw [NamesOnce] at h
    rw [settled, settledMembers_eq_self members h.2, assignAll_eq_self h.1]
  | .null, _ | .bool _, _ | .number _, _ | .string _, _ => by rw [settled]; all_goals simp

theorem settledItems_eq_self : (items : List Json) → NamesOnceItems items →
    settledItems items = items
  | [], _ => rfl
  | j :: items, h => by
    rw [NamesOnceItems] at h
    rw [settledItems, settled_eq_self j h.1, settledItems_eq_self items h.2]

theorem settledMembers_eq_self : (members : List (String × Json)) → NamesOnceMembers members →
    settledMembers members = members
  | [], _ => rfl
  | (key, j) :: members, h => by
    rw [NamesOnceMembers] at h
    rw [settledMembers, settled_eq_self j h.1, settledMembers_eq_self members h.2]
end

mutual
/-- Settling takes members away and puts none in. -/
theorem readable_settled : (j : Json) → j.Readable → j.settled.Readable
  | .array items, h => by
    rw [settled, Readable]
    exact readable_settledItems items h
  | .object members, h => by
    rw [settled, Readable, readableMembers_iff]
    have hmembers := readableMembers_iff.1 (readable_settledMembers members h)
    exact fun m hm => hmembers m (mem_of_mem_assignAll hm)
  | .null, h | .bool _, h | .number _, h | .string _, h => by simpa [settled] using h

theorem readable_settledItems : (items : List Json) → ReadableItems items →
    ReadableItems (settledItems items)
  | [], _ => trivial
  | j :: items, h => by
    rw [settledItems]
    exact ⟨readable_settled j h.1, readable_settledItems items h.2⟩

theorem readable_settledMembers : (members : List (String × Json)) → ReadableMembers members →
    ReadableMembers (settledMembers members)
  | [], _ => trivial
  | (key, j) :: members, h => by
    rw [settledMembers]
    exact ⟨readable_settled j h.1, readable_settledMembers members h.2⟩
end

/-- The numbers of a value that is read are numbers that a text can have. -/
theorem readable_of_read {text : String} {j : Json} (h : read text = .ok j) : j.Readable := by
  obtain ⟨outline, json, houtline, hjson, rfl⟩ := read_eq_ok_iff.1 h
  have hevery : outline.Every Token.Readable :=
    Outline.every_of_ofTokens (fun _ => readable_of_mem_scan) houtline
  exact readable_settled json (Outline.readable_of_toJson? hevery hjson)

mutual
theorem namesOnce_reread : (j : Json) → j.NamesOnce → j.reread.NamesOnce
  | .array items, h => by
    rw [NamesOnce] at h
    rw [reread, NamesOnce]
    exact namesOnce_rereadItems items h
  | .object members, h => by
    rw [NamesOnce] at h
    have hnames : (rereadMembers members).map Prod.fst = members.map Prod.fst := by
      rw [rereadMembers_eq_map, List.map_map]
      rfl
    rw [reread, NamesOnce, hnames]
    exact ⟨h.1, namesOnce_rereadMembers members h.2⟩
  | .null, _ | .bool _, _ | .number _, _ | .string _, _ => by simp [reread, NamesOnce]

theorem namesOnce_rereadItems : (items : List Json) → NamesOnceItems items →
    NamesOnceItems (rereadItems items)
  | [], _ => trivial
  | j :: items, h => by
    rw [rereadItems]
    exact ⟨namesOnce_reread j h.1, namesOnce_rereadItems items h.2⟩

theorem namesOnce_rereadMembers : (members : List (String × Json)) → NamesOnceMembers members →
    NamesOnceMembers (rereadMembers members)
  | [], _ => trivial
  | (_, j) :: members, h => by
    rw [rereadMembers]
    exact ⟨namesOnce_reread j h.1, namesOnce_rereadMembers members h.2⟩
end

/-- A value is read as it is written but for its doubles, if it is nested no deeper than the reader
allows. -/
theorem read_compact {j : Json} (hreadable : j.Readable) (hnames : j.NamesOnce)
    (hlevels : j.levels ≤ 127) : read j.compact = .ok j.reread := by
  have htokens : tokensOf j.compact = j.reread.tokens := by
    rw [tokensOf, Text.ofString, compact, String.toList_ofList, scan_chars hreadable]
  have hrules : ∀ depth < j.reread.levels, Rules.values.admits depth = true := fun depth hdepth =>
    decide_eq_true (hdepth.trans_le (levels_reread j ▸ hlevels))
  refine read_eq_ok_iff.2 ⟨j.reread.outline, j.reread, ?_, toJson?_outline j.reread,
    settled_eq_self j.reread (namesOnce_reread j hnames)⟩
  rw [htokens, ofTokens_tokens hrules]

end CampusQuery.Json
