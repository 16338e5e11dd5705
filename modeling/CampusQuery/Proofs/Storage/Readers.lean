import CampusQuery.Proofs.Storage.Entries
import CampusQuery.Proofs.Storage.Loading
/-!
The reader that passes over the records follows the reader of whole files.

Both look up their parts in one shape of the file. A member that a reader does not ask for is
nothing to it, so an object that has all parts for the one has all parts for the other.
-/

namespace CampusQuery.Storage

open Json (Outline)

namespace DatasetFile

variable {members : List (Option String × Outline)} {bytes : ByteArray} {file : DatasetFile}

/-- The first parts of an object are the parts of which fewer names are asked for. -/
theorem parts?_of_append (names more : List String) {parts : List Outline}
    (h : parts? (names ++ more) (.object members) = some parts) :
    parts? names (.object members) = some (parts.take names.length) := by
  unfold parts? at h ⊢
  dsimp only at h ⊢
  split_ifs at h ⊢ with hkeys
  rw [List.mapM_append, Option.bind_eq_bind, Option.bind_eq_some_iff] at h
  obtain ⟨first, hfirst, h⟩ := h
  obtain ⟨rest, -, h⟩ := Option.bind_eq_some_iff.1 h
  cases h
  have hlength := (Outcome.mapM_eq_some_iff.1 hfirst).length_eq
  rw [hfirst, hlength, List.take_left]

/-- An object that is read as a whole is read without its records, and says the same. -/
theorem header?_of_decode? (hobject : outline? bytes = some (.object members))
    (h : decode? bytes = some file) : header? bytes = some ⟨file.id, file.kind, file.size⟩ := by
  obtain ⟨o, id, kind, size, records, ho, hparts, hid, hkind, hsize, -⟩ :=
    decode?_eq_some_iff.1 h
  obtain rfl : Outline.object members = o := Option.some.inj (hobject.symm.trans ho)
  have hheader : parts? ["id", "kind", "size"] (.object members) = some [id, kind, size] :=
    parts?_of_append ["id", "kind", "size"] ["records"] hparts
  unfold header?
  simp [hobject, hheader, hid, hkind, hsize]

/-- Both readers take a file only if it is an object: an array has too many parts for the one or too
few for the other. -/
theorem exists_object {info : DatasetInfo} (hheader : header? bytes = some info)
    (hdecode : decode? bytes = some file) :
    ∃ members, outline? bytes = some (.object members) := by
  obtain ⟨o, id, kind, size, records, ho, hparts, -⟩ := decode?_eq_some_iff.1 hdecode
  unfold header? at hheader
  rw [Option.bind_eq_bind, ho, Option.bind_some, Option.bind_eq_bind,
    Option.bind_eq_some_iff] at hheader
  obtain ⟨parts, hparts', -⟩ := hheader
  cases o with
  | object members => exact ⟨members, ho⟩
  | scalar token => cases hparts
  | array items =>
    simp only [parts?, List.length_cons, List.length_nil] at hparts hparts'
    split_ifs at hparts hparts' with hfour hthree
    omega

end DatasetFile

namespace Store

variable {d : Directory}

/-- Only its own file lists a dataset. -/
theorem filter_id_list (hnames : d.names.Nodup) {id : String} {bytes : ByteArray}
    (hfile : d.find? (fileName id) = some (.file bytes)) :
    (list d).filter (fun info => info.id == id) =
      (info? (fileName id, .file bytes)).toList.filter fun info => info.id == id := by
  rw [← filter_fileName_list hnames hfile, List.filter_filter]
  apply List.filter_congr
  intro info _
  by_cases hid : info.id = id <;> simp [hid]

/-- What a file that is an object says to the reader of whole files, it says to the reader that
passes over the records. So a dataset that can be loaded from it is listed, just once and with as
many rows as are loaded, and what else is listed comes from the other files. -/
theorem list_of_get {bytes : ByteArray} {members : List (Option String × Outline)}
    (hobject : DatasetFile.outline? bytes = some (.object members)) :
    (∀ file, DatasetFile.decode? bytes = some file →
      DatasetFile.header? bytes = some ⟨file.id, file.kind, file.size⟩) ∧
    ∀ (d : Directory) (id : String) (data : Dataset), d.names.Nodup → id ≠ "" →
      d.find? (fileName id) = some (.file bytes) → get d id = .ok data →
      (list d).filter (fun info => info.id == id) = [⟨id, data.kind, data.records.length⟩] ∧
      (list d).Perm (⟨id, data.kind, data.records.length⟩ :: list (d.erase (fileName id))) := by
  refine ⟨fun file => DatasetFile.header?_of_decode? hobject, ?_⟩
  intro d id data hnames hid hfile hget
  obtain ⟨-, ⟨bytes', hread, hdecode⟩, -⟩ := exists_decode?_of_get hget
  rw [Directory.read, hfile] at hread
  cases hread
  have hinfo : info? (fileName id, .file bytes) = some ⟨id, data.kind, data.records.length⟩ := by
    simp [info?, datasetStem?_fileName hid, DatasetFile.header?_of_decode? hobject hdecode]
  have hown := filter_fileName_list hnames hfile
  rw [hinfo] at hown
  constructor
  · rw [filter_id_list hnames hfile, hinfo]
    simp
  · have hparts := List.filter_append_perm
      (fun info : DatasetInfo => fileName info.id == fileName id) (list d)
    rw [hown] at hparts
    rw [Directory.erase, list_filter (· != fileName id)]
    exact hparts.symm

/-- The parts stand in any order, and a member among them holds what no reader of values takes. -/
theorem list_of_get_of_unordered_members :
    let text := "\x7b \"note\": [1e999, \"\\ud800\"], \"size\": 1, \"id\": \"ubc\",\n" ++
      " \"records\": [[\"cpsc\", \"310\", \"\", \"\", \"1\", 2015, 90, 0, 0, 0]],\n" ++
      " \"kind\": \x7b\"sections\": null\x7d\x7d\n"
    let taught : Record := .ofSection
      ⟨"cpsc", "310", "", "", "1", .ofInt 2015, .ofInt 90, .zero, .zero, .zero⟩
    let d : Directory := [("notes.txt", .file text.toUTF8), ("756263.json", .file text.toUTF8)]
    (∃ members, DatasetFile.outline? text.toUTF8 = some (.object members)) ∧
      get d "ubc" = .ok ⟨"ubc", .sections, [taught]⟩ ∧
      (list d).filter (fun info => info.id == "ubc") = [⟨"ubc", .sections, 1⟩] := by
  intro text taught d
  have hheader : DatasetFile.header? text.toUTF8 = some ⟨"ubc", .sections, 1⟩ := by
    decide +kernel
  have hdecode : DatasetFile.decode? text.toUTF8 = some ⟨"ubc", .sections, 1, [taught]⟩ := by
    decide +kernel
  have hread : d.read (fileName "ubc") = .ok text.toUTF8 := rfl
  have hget : get d "ubc" = .ok ⟨"ubc", .sections, [taught]⟩ := by
    rw [get_of_read hread, hdecode]
    rfl
  obtain ⟨members, hmembers⟩ := DatasetFile.exists_object hheader hdecode
  obtain ⟨-, hlisted⟩ := list_of_get hmembers
  exact ⟨⟨members, hmembers⟩, hget,
    (hlisted d "ubc" _ (by decide) (by decide) rfl hget).1⟩

end Store

end CampusQuery.Storage
