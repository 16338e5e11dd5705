import CampusQuery.Proofs.Storage.Directories
import CampusQuery.Proofs.Storage.Files
import CampusQuery.Proofs.Storage.Names
import CampusQuery.Storage.Store
/-!
A directory that holds the files of some datasets and nothing else, under the operations of a store.
-/

namespace CampusQuery

/-- What a file can hold: a name that is not empty, and records of the kind of the dataset, no more
of them than can be counted, in which all numbers are finite. -/
structure Dataset.Storable (data : Dataset) : Prop where
  id_ne : data.id ≠ ""
  length_lt : data.records.length < 2 ^ 64
  kind_eq : ∀ r ∈ data.records, r.kind = data.kind
  finite : ∀ r ∈ data.records, r.Finite

namespace Storage

/-- What is written of a dataset. -/
def fileOf (data : Dataset) : DatasetFile :=
  ⟨data.id, data.kind, data.records.length, data.records⟩

/-- The entry of a dataset. -/
def entryOf (data : Dataset) : String × Node :=
  (fileName data.id, .file (fileOf data).encode)

/-! ### One dataset -/

theorem find?_fileName_of_not_contains {d : Directory} {id : String}
    (h : Store.contains d id = false) : d.find? (fileName id) = none :=
  Option.isNone_iff_eq_none.1 (Option.isSome_eq_false_iff.1 h)

/-- What is loaded is what the file says, if that can be true of the dataset. -/
theorem get_of_read {d : Directory} {id : String} {bytes : ByteArray}
    (hread : d.read (fileName id) = .ok bytes) :
    Store.get d id = match DatasetFile.decode? bytes with
      | some file => (Store.checked id file).mapError .storage
      | none => .error (.storage (.unparsable id)) := by
  rw [Store.get, hread, Outcome.mapError_ok, Outcome.ok_bind]
  cases DatasetFile.decode? bytes <;> rfl

section

variable {d : Directory} {data : Dataset}
  (hfile : d.find? (fileName data.id) = some (.file (fileOf data).encode))
  (hcount : data.records.length < 2 ^ 64)
include hfile hcount

theorem get_of_find? (hkind : ∀ r ∈ data.records, r.kind = data.kind)
    (hfinite : ∀ r ∈ data.records, r.Finite) : Store.get d data.id = .ok data.reread := by
  have hread : d.read (fileName data.id) = .ok (fileOf data).encode := by
    rw [Directory.read, hfile]
  have hdecode : DatasetFile.decode? (fileOf data).encode = some (fileOf data).reread :=
    DatasetFile.decode?_encode hcount hfinite
  have hkinds : (data.reread.records.any fun r => r.kind != data.kind) = false := by
    rw [List.any_eq_false, Dataset.reread, List.forall_mem_map]
    intro r hr
    simp [hkind r hr]
  rw [get_of_read hread, hdecode]
  unfold Dataset.reread at hkinds ⊢
  simp [Store.checked, fileOf, DatasetFile.reread, hkinds, Outcome.mapError_ok]

/-- What is written of numbers that are not finite cannot be loaded. -/
theorem get_of_find?_of_not_finite (hfinite : ∃ r ∈ data.records, ¬r.Finite) :
    Store.get d data.id = .error (.storage (.unparsable data.id)) := by
  have hread : d.read (fileName data.id) = .ok (fileOf data).encode := by
    rw [Directory.read, hfile]
  rw [get_of_read hread, DatasetFile.decode?_encode_eq_none (f := fileOf data) hcount hfinite]

end

/-- What is written of a dataset is listed. -/
theorem info?_entryOf {data : Dataset} (hid : data.id ≠ "")
    (hcount : data.records.length < 2 ^ 64) :
    Store.info? (entryOf data) = some data.info := by
  have hheader : DatasetFile.header? (fileOf data).encode = some data.info :=
    DatasetFile.header?_encode hcount
  rw [entryOf, Store.info?, datasetStem?_fileName hid, hheader]
  exact if_pos rfl

/-- Every entry is listed. -/
theorem filterMap_info?_map_entryOf {l : List Dataset}
    (h : ∀ data ∈ l, data.id ≠ "" ∧ data.records.length < 2 ^ 64) :
    (l.map entryOf).filterMap Store.info? = l.map Dataset.info := by
  rw [List.filterMap_map, ← List.filterMap_eq_map]
  apply List.filterMap_congr
  intro data hdata
  exact info?_entryOf (h data hdata).1 (h data hdata).2

/-- A new file goes behind the others. -/
theorem put_eq_ok {d : Directory} {data : Dataset} (h : d.find? (fileName data.id) = none) :
    Store.put d data = .ok (d ++ [entryOf data]) := by
  have hcontains : Store.contains d data.id = false := by
    rw [Store.contains, h]
    rfl
  rw [Store.put, hcontains, if_neg Bool.false_ne_true]
  exact congrArg Except.ok (Directory.put_of_find?_eq_none h _)

/-- The entries that are no leftovers. -/
def Directory.kept (d : Directory) : Directory :=
  d.filter fun entry => !isLeftover entry.1

theorem Directory.kept_cons (entry : String × Node) (d : Directory) :
    Directory.kept (entry :: d) = if isLeftover entry.1 then d.kept else entry :: d.kept := by
  rw [kept, List.filter_cons]
  cases isLeftover entry.1 <;> rfl

theorem Directory.kept_eq_self {d : Directory} (h : ∀ entry ∈ d, isLeftover entry.1 = false) :
    d.kept = d := by
  rw [kept, List.filter_eq_self]
  intro entry hentry
  rw [h entry hentry]
  rfl

theorem Directory.mem_kept {d : Directory} {entry : String × Node} :
    entry ∈ d.kept ↔ entry ∈ d ∧ isLeftover entry.1 = false := by
  rw [kept, List.mem_filter, Bool.not_eq_true']

theorem Directory.kept_kept (d : Directory) : d.kept.kept = d.kept :=
  kept_eq_self fun _ hentry => (mem_kept.1 hentry).2

/-- Leftovers are swept away if they are files, and nothing else is. -/
theorem sweep_eq_ok_iff {d d' : Directory} :
    Store.sweep d = .ok d' ↔
      (∀ entry ∈ d, isLeftover entry.1 = true → ∃ bytes, entry.2 = .file bytes) ∧
        d' = d.kept := by
  unfold Store.sweep
  dsimp only
  split_ifs with hfolders
  · refine iff_of_false not_false fun hfiles => ?_
    obtain ⟨⟨name, node⟩, hmem, hfolder⟩ := List.any_eq_true.1 hfolders
    rw [List.mem_filter] at hmem
    obtain ⟨bytes, rfl⟩ := hfiles.1 (name, node) hmem.1 hmem.2
    cases hfolder
  · have hfiles : ∀ entry ∈ d, isLeftover entry.1 = true → ∃ bytes, entry.2 = .file bytes := by
      rintro ⟨name, node⟩ hentry hleftover
      cases node with
      | file bytes => exact ⟨bytes, rfl⟩
      | folder inner =>
        exact absurd (List.any_eq_true.2 ⟨_, List.mem_filter.2 ⟨hentry, hleftover⟩, rfl⟩) hfolders
    rw [Except.ok.injEq, and_iff_right hfiles]
    exact eq_comm

/-- Nothing but leftovers is swept away. -/
theorem sweep_eq_ok {d d' : Directory} (h : Store.sweep d = .ok d') :
    d' = d.filter fun entry => !isLeftover entry.1 :=
  (sweep_eq_ok_iff.1 h).2

/-- A sweep that stops takes nothing away but leftovers. -/
theorem Store.sweepUntil_sublist (stays : String × Node → Bool) (d : Directory) :
    (sweepUntil stays d).Sublist d := by
  induction d with
  | nil => exact .slnil
  | cons entry d ih =>
    rw [sweepUntil]
    split_ifs
    · exact .refl _
    · exact ih.cons entry
    · exact ih.cons_cons entry

theorem Store.kept_sweepUntil (stays : String × Node → Bool) (d : Directory) :
    (sweepUntil stays d).kept = d.kept := by
  induction d with
  | nil => rfl
  | cons entry d ih =>
    rw [sweepUntil]
    split_ifs with hleftover
    · rfl
    · rw [ih, Directory.kept_cons, if_pos hleftover]
    · rw [Directory.kept_cons, Directory.kept_cons, if_neg hleftover, if_neg hleftover, ih]

/-- What is put under a free name is read as it is, in its order, with the numbers read again: so it
is read as the very same records where their numbers read back. Where a number is not finite, it is
put all the same and cannot be read. -/
theorem Store.decode?_put {d : Directory} {data : Dataset} (hfree : contains d data.id = false)
    (hcount : data.records.length < 2 ^ 64) :
    ∃ d' bytes, put d data = .ok d' ∧ d'.read (fileName data.id) = .ok bytes ∧
      ((∀ r ∈ data.records, r.Finite) → ∃ records,
        DatasetFile.decode? bytes = some ⟨data.id, data.kind, data.records.length, records⟩ ∧
        records = data.records.map Record.reread ∧
        ((∀ r ∈ data.records, r.ReadsBack) → records = data.records)) ∧
      ((∃ r ∈ data.records, ¬r.Finite) → DatasetFile.decode? bytes = none) := by
  have hfree := find?_fileName_of_not_contains hfree
  have hfile : Directory.find? (d ++ [entryOf data]) (fileName data.id) =
      some (.file (fileOf data).encode) := by
    rw [Directory.find?, List.lookup_append, ← Directory.find?, hfree]
    exact List.lookup_cons_self
  refine ⟨_, (fileOf data).encode, put_eq_ok hfree, ?_, ?_, ?_⟩
  · rw [Directory.read, hfile]
  · exact fun hfinite => ⟨_, DatasetFile.decode?_encode hcount hfinite, rfl,
      Record.map_reread_eq_self⟩
  · exact DatasetFile.decode?_encode_eq_none (f := fileOf data) hcount

/-- Quotes, control characters and a zero with a sign come back; a number that is none does not. -/
theorem Store.decode?_put_of_mixed_kinds :
    let odd : Record := .ofSection ⟨"\"\\\n\x01é", "", "", "", "1", ⟨0x8000000000000000⟩, ⟨1⟩,
      ⟨0x7FEFFFFFFFFFFFFF⟩, ⟨0xBFB999999999999A⟩, .zero⟩
    let room : Record := .ofRoom ⟨"", "", "", "", "", "", "", "2", .zero, .zero, .zero⟩
    let broken : Record := .ofRoom ⟨"", "", "", "", "", "", "", "2", .zero, .zero, .posInfinity⟩
    (∃ d bytes, put [] ⟨"\x7f ü", .rooms, [odd, room]⟩ = .ok d ∧
      d.read (fileName "\x7f ü") = .ok bytes ∧
      DatasetFile.decode? bytes = some ⟨"\x7f ü", .rooms, 2, [odd, room]⟩) ∧
    ∃ d bytes, put [] ⟨"ubc", .rooms, [room, broken]⟩ = .ok d ∧
      d.read (fileName "ubc") = .ok bytes ∧ DatasetFile.decode? bytes = none := by
  intro odd room broken
  have hfinite : ∀ r ∈ [odd, room], r.Finite := by decide
  have hback : ∀ r ∈ [odd, room], r.ReadsBack := by decide +kernel
  have hbroken : ¬broken.Finite := by decide
  constructor
  · obtain ⟨d, bytes, hput, hread, hdecode, -⟩ :=
      @decode?_put [] ⟨"\x7f ü", .rooms, [odd, room]⟩ rfl (by decide)
    obtain ⟨records, hrecords, -, heq⟩ := hdecode hfinite
    rw [heq hback] at hrecords
    exact ⟨d, bytes, hput, hread, hrecords⟩
  · obtain ⟨d, bytes, hput, hread, -, hdecode⟩ :=
      @decode?_put [] ⟨"ubc", .rooms, [room, broken]⟩ rfl (by decide)
    exact ⟨d, bytes, hput, hread, hdecode ⟨broken, by simp, hbroken⟩⟩

/-! ### All datasets -/

/-- The directory holds the datasets, which have different names, and nothing else. The names are
among `ids`. -/
structure Holds (ids : List String) (d : Directory) (l : List Dataset) : Prop where
  entries : d = l.map entryOf
  nodup : (l.map (·.id)).Nodup
  named : ∀ data ∈ l, data.id ∈ ids
  storable : ∀ data ∈ l, data.Storable

namespace Holds

variable {ids : List String} {d : Directory} {l : List Dataset}

theorem eq_of_id_eq (h : Holds ids d l) {data data' : Dataset} (hdata : data ∈ l)
    (hdata' : data' ∈ l) (hid : data.id = data'.id) : data = data' :=
  List.inj_on_of_nodup_map h.nodup hdata hdata' hid

theorem nodup_names (hids : DigestsApart ids) (h : Holds ids d l) : (d.map Prod.fst).Nodup := by
  rw [h.entries, List.map_map]
  refine List.Nodup.map_on (fun data hdata data' hdata' hname => ?_) (List.Nodup.of_map _ h.nodup)
  have hid := (fileName_inj hids (h.named data hdata) (h.named data' hdata')).1 hname
  exact h.eq_of_id_eq hdata hdata' hid

theorem name_ne (hids : DigestsApart ids) (h : Holds ids d l) {id : String} (hid : id ∈ ids)
    (hno : ∀ data ∈ l, data.id ≠ id) : ∀ entry ∈ d, entry.1 ≠ fileName id := by
  intro entry hentry
  rw [h.entries] at hentry
  obtain ⟨data, hdata, rfl⟩ := List.mem_map.1 hentry
  rw [entryOf, Ne, fileName_inj hids (h.named data hdata) hid]
  exact hno data hdata

theorem find?_of_mem (hids : DigestsApart ids) (h : Holds ids d l) {data : Dataset}
    (hdata : data ∈ l) : d.find? (fileName data.id) = some (.file (fileOf data).encode) := by
  refine lookup_of_mem (h.nodup_names hids) ?_
  rw [h.entries]
  exact List.mem_map_of_mem hdata

theorem find?_of_not_mem (hids : DigestsApart ids) (h : Holds ids d l) {id : String}
    (hid : id ∈ ids) (hno : ∀ data ∈ l, data.id ≠ id) : d.find? (fileName id) = none := by
  rw [Directory.find?, List.lookup_eq_none_iff]
  intro entry hentry
  exact bne_iff_ne.2 (h.name_ne hids hid hno entry hentry).symm

/-- A dataset is loaded as it was stored, with its numbers read again. -/
theorem get_of_mem (hids : DigestsApart ids) (h : Holds ids d l) {data : Dataset}
    (hdata : data ∈ l) : Store.get d data.id = .ok data.reread := by
  have hstorable := h.storable data hdata
  exact get_of_find? (h.find?_of_mem hids hdata) hstorable.length_lt hstorable.kind_eq
    hstorable.finite

theorem get_of_not_mem (hids : DigestsApart ids) (h : Holds ids d l) {id : String}
    (hid : id ∈ ids) (hno : ∀ data ∈ l, data.id ≠ id) :
    Store.get d id = .error (.notFound id) := by
  rw [Store.get, Directory.read, h.find?_of_not_mem hids hid hno]
  rfl

/-- A new dataset goes behind the others. -/
theorem put (hids : DigestsApart ids) (h : Holds ids d l) {data : Dataset} (hid : data.id ∈ ids)
    (hno : ∀ other ∈ l, other.id ≠ data.id) (hdata : data.Storable) :
    ∃ d', Store.put d data = .ok d' ∧ Holds ids d' (l ++ [data]) := by
  refine ⟨d ++ [entryOf data], put_eq_ok (h.find?_of_not_mem hids hid hno), ?_, ?_, ?_, ?_⟩
  · rw [h.entries, List.map_append]
    rfl
  · have hnew : data.id ∉ l.map (·.id) := by
      intro hmem
      obtain ⟨other, hother, heq⟩ := List.mem_map.1 hmem
      exact hno other hother heq
    rw [List.map_append, List.map_singleton, ← List.concat_eq_append]
    exact h.nodup.concat hnew
  · intro other hother
    rcases List.mem_append.1 hother with hother | hother
    · exact h.named other hother
    · exact List.mem_singleton.1 hother ▸ hid
  · intro other hother
    rcases List.mem_append.1 hother with hother | hother
    · exact h.storable other hother
    · exact List.mem_singleton.1 hother ▸ hdata

/-- A dataset is taken away with no other. -/
theorem remove (hids : DigestsApart ids) (h : Holds ids d l) {data : Dataset} (hdata : data ∈ l) :
    ∃ d', Store.remove d data.id = .ok d' ∧ Holds ids d' (l.filter (·.id != data.id)) := by
  refine ⟨d.erase (fileName data.id), ?_, ?_, ?_, ?_, ?_⟩
  · rw [Store.remove, Directory.removeFile, h.find?_of_mem hids hdata]
    rfl
  · rw [Directory.erase, h.entries, List.filter_map]
    congr 1
    apply List.filter_congr
    intro other hother
    have hname := fileName_inj hids (h.named other hother) (h.named data hdata)
    rw [Function.comp_apply, entryOf, Bool.eq_iff_iff, bne_iff_ne, bne_iff_ne, Ne, Ne, hname]
  · exact h.nodup.sublist (List.filter_sublist.map _)
  · exact fun other hother => h.named other (List.mem_of_mem_filter hother)
  · exact fun other hother => h.storable other (List.mem_of_mem_filter hother)

theorem remove_of_not_mem (hids : DigestsApart ids) (h : Holds ids d l) {id : String}
    (hid : id ∈ ids) (hno : ∀ data ∈ l, data.id ≠ id) :
    Store.remove d id = .error (.notFound id) := by
  rw [Store.remove, Directory.removeFile, h.find?_of_not_mem hids hid hno]
  rfl

theorem isLeftover_eq_false (h : Holds ids d l) : ∀ entry ∈ d, isLeftover entry.1 = false := by
  rw [h.entries]
  intro entry hentry
  obtain ⟨data, -, rfl⟩ := List.mem_map.1 hentry
  exact isLeftover_fileName data.id

end Holds

end Storage

end CampusQuery
