import CampusQuery.Proofs.Dataset.Records
import CampusQuery.Storage.Store
/-!
What loading a dataset vouches for, whatever the directory holds.
-/

namespace CampusQuery.Storage

open Json (Outline Token)

namespace DatasetFile

variable {P : Token → Prop}

theorem every_of_parts? {names : List String} {o : Outline} (ho : o.Every P) {parts : List Outline}
    (h : parts? names o = some parts) : ∀ part ∈ parts, part.Every P := by
  unfold parts? at h
  split at h
  · split_ifs at h
    cases h
    exact Json.Outline.everyItem_iff.1 ho
  · split_ifs at h
    intro part hpart
    obtain ⟨name, -, hname⟩ := Outcome.exists_of_mem_mapM h hpart
    split at hname
    · next key part hfilter =>
      cases hname
      have hmem : (key, part) ∈ _ := List.mem_of_mem_filter (hfilter ▸ List.mem_singleton_self _)
      exact Json.Outline.everyMember_iff.1 ho _ hmem
    · cases hname
  · cases h

theorem size_le_of_size? {o : Outline} (ho : o.Every Token.Readable) {n : Nat}
    (h : size? o = some n) : n ≤ 2 ^ 64 := by
  unfold size? at h
  split at h
  · split_ifs at h
    cases h
    simp only [Json.Outline.Every, Token.Readable, Number.Readable] at ho
    omega
  · cases h

theorem finite_of_records? {o : Outline} (ho : o.Every Token.Readable) {records : List Record}
    (h : records? o = some records) : ∀ r ∈ records, r.Finite := by
  unfold records? at h
  split at h
  · intro r hr
    obtain ⟨item, hitem, hrecord⟩ := Outcome.exists_of_mem_mapM h hr
    obtain ⟨j, hj, hr⟩ := Option.bind_eq_some_iff.1 hrecord
    have hitem := Json.Outline.everyItem_iff.1 ho item hitem
    exact Record.finite_of_ofJson? (Json.Outline.readable_of_toJson? hitem hj) hr
  · cases h

/-- The reader of whole files finds four parts, each of its own form. -/
theorem decode?_eq_some_iff {bytes : ByteArray} {file : DatasetFile} :
    decode? bytes = some file ↔ ∃ o id kind size records, outline? bytes = some o ∧
      parts? ["id", "kind", "size", "records"] o = some [id, kind, size, records] ∧
      text? id = some file.id ∧ kind? kind = some file.kind ∧ size? size = some file.size ∧
      records? records = some file.records := by
  unfold decode?
  simp only [Option.bind_eq_bind, Option.bind_eq_some_iff]
  constructor
  · intro h
    obtain ⟨o, ho, parts, hparts, h⟩ := h
    split at h
    · next id kind size records =>
      simp only [Option.bind_eq_some_iff] at h
      obtain ⟨id', hid, kind', hkind, size', hsize, records', hrecords, heq⟩ := h
      cases heq
      exact ⟨o, id, kind, size, records, ho, hparts, hid, hkind, hsize, hrecords⟩
    · cases h
  · intro h
    obtain ⟨o, id, kind, size, records, ho, hparts, hid, hkind, hsize, hrecords⟩ := h
    refine ⟨o, ho, _, hparts, ?_⟩
    simp [hid, hkind, hsize, hrecords]

/-- What a file says is readable. -/
theorem readable_of_decode? {bytes : ByteArray} {file : DatasetFile}
    (h : decode? bytes = some file) : file.size ≤ 2 ^ 64 ∧ ∀ r ∈ file.records, r.Finite := by
  obtain ⟨o, id, kind, size, records, ho, hparts, -, -, hsize, hrecords⟩ :=
    decode?_eq_some_iff.1 h
  have hevery : o.Every Token.Readable :=
    Json.Outline.every_of_ofTokens (fun _ => Json.readable_of_mem_scan)
      (Outcome.toOption_eq_some_iff.1 ho)
  have hparts := every_of_parts? hevery hparts
  simp only [List.forall_mem_cons] at hparts
  obtain ⟨-, -, hsize', hrecords', -⟩ := hparts
  exact ⟨size_le_of_size? hsize' hsize, finite_of_records? hrecords' hrecords⟩

end DatasetFile

namespace Store

theorem checked_eq_ok {id : String} {file : DatasetFile} {data : Dataset}
    (h : checked id file = .ok data) :
    data.id = id ∧ file = ⟨id, data.kind, data.records.length, data.records⟩ ∧
      ∀ r ∈ data.records, r.kind = data.kind := by
  unfold checked at h
  split_ifs at h with hid hsize hkinds
  cases h
  rw [not_not] at hid hsize
  obtain ⟨fileId, kind, size, records⟩ := file
  obtain rfl : fileId = id := hid
  obtain rfl : size = records.length := hsize
  exact ⟨rfl, rfl, by simpa using hkinds⟩

/-- A dataset that is loaded is the one that is asked for. It has a file that says just what is
loaded, and its records are of its kind. -/
theorem exists_decode?_of_get {d : Directory} {id : String} {data : Dataset}
    (h : get d id = .ok data) :
    data.id = id ∧
      (∃ bytes, d.read (fileName id) = .ok bytes ∧
        DatasetFile.decode? bytes = some ⟨id, data.kind, data.records.length, data.records⟩) ∧
      ∀ r ∈ data.records, r.kind = data.kind := by
  unfold get at h
  obtain ⟨bytes, hread, h⟩ := Outcome.bind_eq_ok_iff.1 h
  rw [Outcome.mapError_eq_ok_iff] at hread
  cases hdecode : DatasetFile.decode? bytes with
  | none =>
    rw [hdecode] at h
    cases h
  | some file =>
    rw [hdecode] at h
    obtain ⟨hid, rfl, hkinds⟩ := checked_eq_ok (Outcome.mapError_eq_ok_iff.1 h)
    exact ⟨hid, ⟨bytes, hread, hdecode⟩, hkinds⟩

/-- A dataset that is loaded is the one that is asked for; its records are of its kind, and all of
their numbers are finite. -/
theorem get_eq_ok {d : Directory} {id : String} {data : Dataset} (h : get d id = .ok data) :
    data.id = id ∧ data.records.length ≤ 2 ^ 64 ∧
      ∀ r ∈ data.records, r.kind = data.kind ∧ r.Finite := by
  obtain ⟨hid, ⟨bytes, -, hdecode⟩, hkinds⟩ := exists_decode?_of_get h
  obtain ⟨hsize, hfinite⟩ := DatasetFile.readable_of_decode? hdecode
  exact ⟨hid, hsize, fun r hr => ⟨hkinds r hr, hfinite r hr⟩⟩

end Store

end CampusQuery.Storage
