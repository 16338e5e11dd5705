import CampusQuery.Proofs.Dataset.Records
import CampusQuery.Proofs.Dataset.Reread
import CampusQuery.Proofs.Utf8
import CampusQuery.Storage.DatasetFile
/-!
The file of a dataset says what was written to it, to both readers, up to its doubles.

The number of records must be one that is read as a whole number. The doubles of the records are
read again. A file has no text for numbers that are not finite: where the records have one, the
reader of all parts refuses the file, and the reader that passes over the records does not notice.
-/

namespace CampusQuery

/-! ### Records -/

namespace Record

/-- A record is written as an object with a member for each of its fields, in their order. -/
theorem exists_toJson_eq (r : Record) : ∃ members, r.toJson = .object members ∧
    members.map Prod.fst = r.kind.fields.map Field.key ∧
    ∀ m ∈ members, ∃ f, m.1 = f.key ∧
      ((∃ s, r.text? f = some s ∧ m.2 = .string s) ∨
        ∃ x, r.number? f = some x ∧ m.2 = .ofDouble x) := by
  refine ⟨_, rfl, ?_, fun m hm => ?_⟩
  · cases r <;> rfl
  · obtain ⟨f, -, hf⟩ := List.mem_filterMap.1 hm
    obtain ⟨cell, hcell, rfl⟩ := Option.map_eq_some_iff.1 hf
    unfold cell? at hcell
    split_ifs at hcell
    · obtain ⟨x, hx, rfl⟩ := Option.map_eq_some_iff.1 hcell
      exact ⟨f, rfl, .inr ⟨x, hx, rfl⟩⟩
    · obtain ⟨s, hs, rfl⟩ := Option.map_eq_some_iff.1 hcell
      exact ⟨f, rfl, .inl ⟨s, hs, rfl⟩⟩

theorem readable_toJson (r : Record) : r.toJson.Readable := by
  obtain ⟨members, heq, -, hcontents⟩ := exists_toJson_eq r
  rw [heq, Json.Readable, Json.readableMembers_iff]
  intro m hm
  obtain ⟨f, -, ⟨s, -, hs⟩ | ⟨x, -, hx⟩⟩ := hcontents m hm
  · rw [hs]
    trivial
  · rw [hx, Json.ofDouble]
    split_ifs with hfinite
    · exact hfinite
    · trivial

/-- The form of a record in which all numbers are finite is a record. -/
theorem ofJson?_toJson {r : Record} (hr : r.Finite) : ofJson? r.toJson = some r := by
  obtain ⟨members, heq, hnames, hcontents⟩ := exists_toJson_eq r
  rw [ofJson?_eq_some_iff, Written, heq]
  refine .object (.of_eq hnames) fun f _ v hv => ?_
  obtain ⟨f', hkey, hcontent⟩ := hcontents _ hv
  obtain rfl := Field.key_inj hkey
  rcases hcontent with ⟨s, hs, rfl⟩ | ⟨x, hx, rfl⟩
  · exact hs
  · rw [Json.ofDouble, if_pos (hr f x hx)]
    exact hx

/-- A number that is not finite has no form, so that of the whole is no record. -/
theorem ofJson?_toJson_eq_none {r : Record} (hr : ¬r.Finite) : ofJson? r.toJson = none := by
  rw [Option.eq_none_iff_forall_ne_some]
  intro r' hr'
  refine hr fun f x hx => ?_
  obtain ⟨members, heq, hnames, hcontents⟩ := exists_toJson_eq r
  obtain ⟨hkind, hnumeric⟩ := isSome_number?_iff.1 (Option.isSome_of_eq_some hx)
  have hkey : f.key ∈ members.map Prod.fst :=
    hnames ▸ List.mem_map_of_mem ((Field.mem_fields_iff f _).2 hkind)
  obtain ⟨m, hm, hkey⟩ := List.mem_map.1 hkey
  rw [heq, ofJson?_eq_some_iff] at hr'
  have hnull := hr'.ne_null hm
  obtain ⟨f', hkey', hcontent⟩ := hcontents m hm
  obtain rfl := Field.key_inj (hkey.symm.trans hkey')
  rcases hcontent with ⟨s, hs, -⟩ | ⟨y, hy, hcontent⟩
  · have htext := (isSome_text?_iff.1 (Option.isSome_of_eq_some hs)).2
    exact absurd (hnumeric.symm.trans htext) (by decide)
  · obtain rfl : x = y := Option.some.inj (hx.symm.trans hy)
    by_contra hinfinite
    exact hnull (hcontent.trans (if_neg hinfinite))

end Record

/-! ### Files -/

namespace Json

/-- Whatever is written is read in full, however deep. -/
theorem ofTokens_shape {j : Json} (hj : j.Readable) :
    Outline.ofTokens .shape (scan (.ofBytes j.compact.toUTF8)) = .ok j.reread.outline := by
  rw [Text.ofBytes_toUTF8, Text.ofString, compact, String.toList_ofList, scan_chars hj]
  exact ofTokens_tokens fun _ _ => rfl

theorem itemsOutlines_eq_map (items : List Json) : itemsOutlines items = items.map outline := by
  induction items with
  | nil => rfl
  | cons j items ih => rw [itemsOutlines, ih, List.map_cons]

end Json

namespace Storage.DatasetFile

/-- The file whose records are those that the texts of the records are read as. -/
def reread (f : DatasetFile) : DatasetFile :=
  { f with records := f.records.map Record.reread }

theorem reread_toJson (f : DatasetFile) : f.toJson.reread = f.reread.toJson := by
  have hrecords : f.records.map (Json.reread ∘ Record.toJson) =
      f.records.map (Record.toJson ∘ Record.reread) :=
    List.map_congr_left fun r _ => r.reread_toJson
  simp [toJson, reread, Json.reread, Json.rereadMembers, Json.rereadItems_eq_map, Json.int,
    Number.reread, hrecords]

theorem kind?_name (k : Kind) : kind? (Json.outline (.string k.name)) = some k := by
  cases k <;> rfl

theorem size?_int (n : Nat) : size? (Json.outline (.int n)) = some n := by
  simp [size?, Json.int, Json.outline]

theorem records?_map_toJson (records : List Record) :
    records? (Json.outline (.array (records.map Record.toJson))) =
      records.mapM fun r => Record.ofJson? r.toJson := by
  have hitem : ((fun item : Json.Outline => item.toJson?.bind Record.ofJson?) ∘ Json.outline ∘
      Record.toJson) = fun r => Record.ofJson? r.toJson := by
    funext r
    rw [Function.comp_apply, Function.comp_apply, Json.toJson?_outline, Option.bind_some]
  rw [Json.outline, Json.itemsOutlines_eq_map, records?, List.map_map, List.mapM_map, hitem]

variable {f : DatasetFile} (hsize : f.size < 2 ^ 64)
include hsize

theorem outline?_encode : outline? f.encode = some f.reread.toJson.outline := by
  have hitems : Json.Readable (.array (f.records.map Record.toJson)) := by
    refine Json.readableItems_iff.2 fun j hj => ?_
    obtain ⟨r, -, rfl⟩ := List.mem_map.1 hj
    exact r.readable_toJson
  have hreadable : f.toJson.Readable :=
    ⟨trivial, trivial, ⟨by omega, by omega⟩, hitems, trivial⟩
  rw [outline?, encode, Json.ofTokens_shape hreadable, reread_toJson]
  rfl

/-- All of a file but its records is read as it was written. -/
theorem decode?_encode_eq_map : decode? f.encode =
    (f.reread.records.mapM fun r => Record.ofJson? r.toJson).map
      (DatasetFile.mk f.id f.kind f.size) := by
  have hparts : parts? ["id", "kind", "size", "records"] f.reread.toJson.outline =
      some [Json.outline (.string f.id), Json.outline (.string f.kind.name),
        Json.outline (.int f.size), Json.outline (.array (f.reread.records.map Record.toJson))] :=
    rfl
  rw [decode?, outline?_encode hsize, Option.bind_eq_bind, Option.bind_some, hparts,
    Option.bind_eq_bind, Option.bind_some]
  dsimp only
  rw [kind?_name, size?_int, records?_map_toJson, Option.map_eq_bind]
  rfl

/-- The file is read as it was written, with the doubles read again. -/
theorem decode?_encode (hrecords : ∀ r ∈ f.records, r.Finite) :
    decode? f.encode = some f.reread := by
  have hmap : f.reread.records.mapM (fun r => Record.ofJson? r.toJson) = some f.reread.records := by
    rw [Outcome.mapM_eq_some_iff, List.forall₂_same]
    intro read hread
    obtain ⟨r, hr, rfl⟩ := List.mem_map.1 hread
    exact Record.ofJson?_toJson (Record.finite_reread_iff.2 (hrecords r hr))
  rw [decode?_encode_eq_map hsize, hmap]
  rfl

/-- No file is read in which a number is not finite. -/
theorem decode?_encode_eq_none (hrecords : ∃ r ∈ f.records, ¬r.Finite) :
    decode? f.encode = none := by
  obtain ⟨r, hr, hinfinite⟩ := hrecords
  have hreread : r.reread ∈ f.reread.records := List.mem_map_of_mem hr
  rw [decode?_encode_eq_map hsize, Option.map_eq_none_iff, Option.eq_none_iff_forall_ne_some]
  intro records hmap
  obtain ⟨r', -, hr'⟩ :=
    Outcome.exists_of_forall₂_of_mem (Outcome.mapM_eq_some_iff.1 hmap).flip hreread
  rw [Record.ofJson?_toJson_eq_none (Record.finite_reread_iff.not.2 hinfinite)] at hr'
  cases hr'

/-- The reader that passes over the records reads the rest as the other does. -/
theorem header?_encode : header? f.encode = some ⟨f.id, f.kind, f.size⟩ := by
  have hparts : parts? ["id", "kind", "size"] f.reread.toJson.outline =
      some [Json.outline (.string f.id), Json.outline (.string f.kind.name),
        Json.outline (.int f.size)] :=
    rfl
  rw [header?, outline?_encode hsize, Option.bind_eq_bind, Option.bind_some, hparts,
    Option.bind_eq_bind, Option.bind_some]
  dsimp only
  rw [kind?_name, size?_int]
  rfl

end Storage.DatasetFile

end CampusQuery
