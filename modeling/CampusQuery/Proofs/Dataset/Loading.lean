import CampusQuery.Dataset.Loading
import CampusQuery.Proofs.Dataset.Records
import CampusQuery.Proofs.Json.ReadBack
import CampusQuery.Proofs.Storage.Files
/-!
Which records are loaded from a text.

Of the items of an array, just those that are records are kept. All numbers of a loaded record are
finite, so its text is loaded as a record again, and as the same one where its numbers read back.
-/

namespace CampusQuery

namespace Json

theorem itemsLevels_le_iff {items : List Json} {n : Nat} :
    itemsLevels items ≤ n ↔ ∀ j ∈ items, j.levels ≤ n := by
  induction items with
  | nil => simp [itemsLevels]
  | cons j items ih => rw [itemsLevels, max_le_iff, ih, List.forall_mem_cons]

theorem membersLevels_le_iff {members : List (String × Json)} {n : Nat} :
    membersLevels members ≤ n ↔ ∀ m ∈ members, m.2.levels ≤ n := by
  induction members with
  | nil => simp [membersLevels]
  | cons m members ih => rw [membersLevels, max_le_iff, ih, List.forall_mem_cons]

end Json

namespace Record

/-! ### Writing records -/

theorem levels_toJson_le (r : Record) : r.toJson.levels ≤ 1 := by
  obtain ⟨members, heq, -, hcontents⟩ := exists_toJson_eq r
  rw [heq, Json.levels, Nat.add_le_add_iff_right, Json.membersLevels_le_iff]
  intro m hm
  obtain ⟨f, -, ⟨s, -, hs⟩ | ⟨x, -, hx⟩⟩ := hcontents m hm
  · rw [hs, Json.levels]
    all_goals simp
  · rw [hx, Json.ofDouble]
    split_ifs <;> simp [Json.levels]

theorem namesOnce_toJson (r : Record) : r.toJson.NamesOnce := by
  obtain ⟨members, heq, hnames, hcontents⟩ := exists_toJson_eq r
  rw [heq, Json.NamesOnce, hnames, Json.namesOnceMembers_iff]
  refine ⟨Field.nodup_keys r.kind, fun m hm => ?_⟩
  obtain ⟨f, -, ⟨s, -, hs⟩ | ⟨x, -, hx⟩⟩ := hcontents m hm
  · simp [hs, Json.NamesOnce]
  · rw [hx, Json.ofDouble]
    split_ifs <;> simp [Json.NamesOnce]

/-! ### Loading records -/

variable {text : String} {records : List Record}

theorem ofText_eq_ok_iff : ofText text = .ok records ↔
    ∃ items, Json.read text = .ok (.array items) ∧ items.filterMap ofJson? = records := by
  unfold ofText
  split <;> simp_all

theorem finite_of_ofText (h : ofText text = .ok records) : ∀ r ∈ records, r.Finite := by
  obtain ⟨items, hread, rfl⟩ := ofText_eq_ok_iff.1 h
  have hreadable := Json.readableItems_iff.1 (Json.readable_of_read hread)
  intro r hr
  obtain ⟨j, hj, hrecord⟩ := List.mem_filterMap.1 hr
  exact finite_of_ofJson? (hreadable j hj) hrecord

/-- The items that are records are kept, each as the record that it writes. -/
theorem forall₂_filterMap_ofJson? (items : List Json) :
    List.Forall₂ (fun j r => r.Written j) (items.filter fun j => j.IsRecord)
      (items.filterMap ofJson?) := by
  induction items with
  | nil => exact .nil
  | cons j items ih =>
    cases hrecord : ofJson? j with
    | none =>
      have hj : ¬j.IsRecord := by simp [← isSome_ofJson?_iff, hrecord]
      rwa [List.filterMap_cons_none hrecord, List.filter_cons_of_neg (by simpa using hj)]
    | some r =>
      have hj : j.IsRecord := by simp [← isSome_ofJson?_iff, hrecord]
      rw [List.filterMap_cons_some hrecord, List.filter_cons_of_pos (by simpa using hj)]
      exact .cons (ofJson?_eq_some_iff.1 hrecord) ih

/-- Records whose numbers are finite are loaded from the text of their array, with their numbers read
again. -/
theorem ofText_compact (h : ∀ r ∈ records, r.Finite) :
    ofText (Json.array (records.map toJson)).compact = .ok (records.map reread) := by
  have hreadable : Json.Readable (.array (records.map toJson)) :=
    Json.readableItems_iff.2 (List.forall_mem_map.2 fun r _ => readable_toJson r)
  have hnames : Json.NamesOnce (.array (records.map toJson)) := by
    rw [Json.NamesOnce, Json.namesOnceItems_iff, List.forall_mem_map]
    exact fun r _ => namesOnce_toJson r
  have hlevels : Json.levels (.array (records.map toJson)) ≤ 2 := by
    rw [Json.levels, Nat.add_le_add_iff_right, Json.itemsLevels_le_iff, List.forall_mem_map]
    exact fun r _ => levels_toJson_le r
  have hread := Json.read_compact hreadable hnames (by omega)
  have hkept : (Json.rereadItems (records.map toJson)).filterMap ofJson? = records.map reread := by
    rw [Json.rereadItems_eq_map, List.map_map, List.filterMap_map, ← List.filterMap_eq_map]
    refine List.filterMap_congr fun r hr => ?_
    rw [Function.comp_apply, Function.comp_apply, reread_toJson]
    exact ofJson?_toJson (finite_reread_iff.2 (h r hr))
  rw [Json.reread] at hread
  exact ofText_eq_ok_iff.2 ⟨_, hread, hkept⟩

/-- From an array, just the items that are records are loaded, in their order: those that have the
fields of one kind, as an object or as an array, with contents of their types. What is loaded can be
written and is loaded again, as the same records where their numbers read back. From all else
nothing is loaded. An item is never a record of both kinds. -/
theorem ofText_keeps (text : String) :
    (∀ items, Json.read text = .ok (.array items) → ∃ records, ofText text = .ok records ∧
      List.Forall₂ (fun j r => r.Written j) (items.filter fun j => j.IsRecord) records ∧
      ∀ kept ⊆ records, ∃ again, ofText (Json.array (kept.map toJson)).compact = .ok again ∧
        again = kept.map reread ∧ ((∀ r ∈ kept, r.ReadsBack) → again = kept)) ∧
    ((∀ items, Json.read text ≠ .ok (.array items)) → ∃ fault, ofText text = .error fault) ∧
    ∀ j, (values? .sections j).bind sectionOf? = none ∨ (values? .rooms j).bind roomOf? = none := by
  refine ⟨fun items hread => ?_, fun hread => ?_, ofJsonAs?_sections_or_rooms⟩
  · have hload : ofText text = .ok (items.filterMap ofJson?) :=
      ofText_eq_ok_iff.2 ⟨items, hread, rfl⟩
    refine ⟨_, hload, forall₂_filterMap_ofJson? items, fun kept hkept => ?_⟩
    exact ⟨kept.map reread, ofText_compact fun r hr => finite_of_ofText hload r (hkept hr), rfl,
      map_reread_eq_self⟩
  · cases hload : ofText text with
    | error fault => exact ⟨fault, rfl⟩
    | ok records =>
      obtain ⟨items, hitems, -⟩ := ofText_eq_ok_iff.1 hload
      exact absurd hitems (hread items)

/-- A section with its members in another order and a room as an array, beside a number and an
object that has not all members. -/
theorem ofText_keeps_of_mixed_items :
    let text := "[\x7b\"uuid\":\"1\",\"audit\":-0.0,\"dept\":\"cpsc\",\"id\":\"\"," ++
      "\"title\":\"\",\"instructor\":\"\",\"year\":2015,\"avg\":90.5,\"pass\":0,\"fail\":0\x7d," ++
      " 42,\n \x7b\"dept\":\"math\"\x7d, [\"\",\"\",\"\",\"\",\"\",\"\",\"\",\"1\",0,0,7]]"
    let average : Double := ⟨0x4056A00000000000⟩
    let taught : Record :=
      .ofSection ⟨"cpsc", "", "", "", "1", .ofInt 2015, average, .zero, .zero, .ofMagnitude true 0⟩
    let room : Record := .ofRoom ⟨"", "", "", "", "", "", "", "1", .zero, .zero, .ofInt 7⟩
    (∃ items, Json.read text = .ok (.array items)) ∧ ofText text = .ok [taught, room] ∧
      ofText (Json.array [taught.toJson]).compact = .ok [taught] := by
  intro text average taught room
  have hload : ofText text = .ok [taught, room] := by decide +kernel
  obtain ⟨items, hread, -⟩ := ofText_eq_ok_iff.1 hload
  obtain ⟨records, hrecords, -, hagain⟩ := (ofText_keeps text).1 items hread
  obtain rfl : records = [taught, room] := Except.ok.inj (hrecords.symm.trans hload)
  have htaught : taught.ReadsBack := by decide +kernel
  obtain ⟨again, hloaded, -, hback⟩ := hagain [taught] (by simp)
  rw [hback (by simp [htaught])] at hloaded
  exact ⟨⟨items, hread⟩, hload, hloaded⟩

end Record

end CampusQuery
