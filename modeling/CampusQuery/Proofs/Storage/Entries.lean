import CampusQuery.Proofs.Sorting
import CampusQuery.Proofs.Storage.Datasets
/-!
The entries of a listing, whatever the directory holds.

A file is listed only under the name that belongs to the dataset in its header, so a listing has no
dataset twice, and each file decides about one entry at most. What is done to a file is done to its
entry and to no other.
-/

namespace CampusQuery

/-- Datasets are listed in the order of their names. -/
instance DatasetInfo.transCmp_id :
    Std.TransCmp fun i i' : DatasetInfo => compare i.id i'.id where
  eq_swap := Std.OrientedOrd.eq_swap
  isLE_trans := Std.TransOrd.isLE_trans

namespace Storage

namespace Store

variable {d : Directory} {info : DatasetInfo}

/-! ### Listed datasets -/

/-- What is listed is a file, under the name that belongs to the dataset. -/
theorem info?_eq_some {entry : String × Node} (h : info? entry = some info) :
    entry.1 = fileName info.id ∧ ∃ bytes, entry.2 = .file bytes := by
  obtain ⟨name, node⟩ := entry
  cases node with
  | folder => cases h
  | file bytes =>
    obtain ⟨stem, hstem, h⟩ := Option.bind_eq_some_iff.1 h
    obtain ⟨info', -, h⟩ := Option.bind_eq_some_iff.1 h
    split_ifs at h with heq
    cases h
    exact ⟨by rw [fileName, heq]; exact eq_append_of_datasetStem? hstem, bytes, rfl⟩

theorem mem_list : info ∈ list d ↔ ∃ entry ∈ d, info? entry = some info := by
  rw [list, List.mem_mergeSort, List.mem_filterMap]

theorem find?_of_mem_list (hnames : d.names.Nodup) (h : info ∈ list d) :
    ∃ bytes, d.find? (fileName info.id) = some (.file bytes) ∧
      info? (fileName info.id, .file bytes) = some info := by
  obtain ⟨⟨name, node⟩, hentry, hinfo⟩ := mem_list.1 h
  obtain ⟨rfl, bytes, rfl⟩ := info?_eq_some hinfo
  exact ⟨bytes, lookup_of_mem hnames hentry, hinfo⟩

/-- One file is one dataset. -/
theorem eq_of_fileName_eq (hnames : d.names.Nodup) {info' : DatasetInfo} (h : info ∈ list d)
    (h' : info' ∈ list d) (heq : fileName info.id = fileName info'.id) : info = info' := by
  obtain ⟨bytes, hfile, hinfo⟩ := find?_of_mem_list hnames h
  obtain ⟨bytes', hfile', hinfo'⟩ := find?_of_mem_list hnames h'
  rw [heq] at hfile hinfo
  obtain rfl : bytes = bytes' := by simpa using hfile.symm.trans hfile'
  exact Option.some.inj (hinfo.symm.trans hinfo')

/-- No dataset is listed twice, because it would need two files of one name. -/
theorem pairwise_list (hnames : d.names.Nodup) :
    (list d).Pairwise fun i i' => compare (utf8 i.id) (utf8 i'.id) = .lt := by
  have hdistinct : (list d).Pairwise fun i i' => i.id ≠ i'.id := by
    rw [list, List.Perm.pairwise_iff (fun h => h.symm) (List.mergeSort_perm _ _),
      List.pairwise_filterMap]
    refine (List.pairwise_map.1 hnames).imp fun {entry entry'} hne i hi i' hi' hid => hne ?_
    rw [(info?_eq_some hi).1, (info?_eq_some hi').1, hid]
  have hsorted : (list d).Pairwise fun i i' => (compare i.id i'.id).isLE = true :=
    pairwise_mergeSort_isLE _
  refine (hsorted.and hdistinct).imp fun {i i'} h => ?_
  rw [compare_utf8]
  cases hcompare : compare i.id i'.id with
  | lt => rfl
  | eq => exact absurd (Std.LawfulEqOrd.eq_of_compare hcompare) h.2
  | gt =>
    rw [hcompare] at h
    cases h.1

theorem nodup_list (hnames : d.names.Nodup) : (list d).Nodup := by
  refine (pairwise_list hnames).imp fun {i i'} h heq => ?_
  rw [heq, Std.ReflOrd.compare_self] at h
  cases h

/-! ### Files and their entries -/

/-- A listing of some of the files has the entries of these files. -/
theorem list_filter (p : String → Bool) (d : Directory) :
    list (d.filter fun entry => p entry.1) = (list d).filter fun info => p (fileName info.id) := by
  have hinfos : (d.filter fun entry => p entry.1).filterMap info? =
      (d.filterMap info?).filter fun info => p (fileName info.id) := by
    rw [List.filterMap_filter, List.filter_filterMap]
    apply List.filterMap_congr
    intro entry _
    cases hinfo : info? entry with
    | none => simp
    | some info => simp [(info?_eq_some hinfo).1, Option.filter]
  rw [list, hinfos]
  exact mergeSort_filter_isLE _ _

/-- The entry of a file, if it has one. -/
theorem filter_fileName_list (hnames : d.names.Nodup) {name : String} {node : Node}
    (hfile : d.find? name = some node) :
    (list d).filter (fun info => fileName info.id == name) = (info? (name, node)).toList := by
  have hone : d.filter (fun entry => entry.1 == name) = [(name, node)] :=
    filter_eq_singleton_of_lookup hnames hfile
  rw [← list_filter (· == name), hone, list]
  cases hinfo : info? (name, node) with
  | none => simp [hinfo]
  | some info => simp [hinfo]

/-- Without the file of a dataset, the listing is without its entry. -/
theorem list_erase (hnames : d.names.Nodup) (h : info ∈ list d) :
    list (d.erase (fileName info.id)) = (list d).erase info := by
  rw [Directory.erase, list_filter (· != fileName info.id), (nodup_list hnames).erase_eq_filter]
  apply List.filter_congr
  intro i hi
  rw [Bool.eq_iff_iff, bne_iff_ne, bne_iff_ne, not_iff_not]
  constructor
  · exact eq_of_fileName_eq hnames hi h
  · rintro rfl
    rfl

/-- New bytes of a file are nothing to the entries of other files. -/
theorem filter_list_put (d : Directory) (name : String) (node : Node) :
    (list (d.put name node)).filter (fun info => fileName info.id != name) =
      (list d).filter fun info => fileName info.id != name := by
  rw [← list_filter (· != name), ← list_filter (· != name), Directory.put, filter_assign]

/-- What is listed is in ascending order of the bytes of names. Each listed dataset has a file, from
which its entry is read; its name is taken, and taking it away takes its entry away. The bytes of a
file decide about its own entry and about no other. -/
theorem list_sound (hnames : d.names.Nodup) :
    (list d).Pairwise (fun i i' => compare (utf8 i.id) (utf8 i'.id) = .lt) ∧
      (∀ info ∈ list d,
        (∃ bytes, d.find? (fileName info.id) = some (.file bytes) ∧
          info? (fileName info.id, .file bytes) = some info) ∧
        contains d info.id = true ∧
        (∀ kind records, put d ⟨info.id, kind, records⟩ = .error (.conflict info.id)) ∧
        ∃ d', remove d info.id = .ok d' ∧ list d' = (list d).erase info) ∧
      ∀ name bytes bytes', d.find? name = some (.file bytes) →
        (list d).filter (fun info => fileName info.id == name) =
          (info? (name, .file bytes)).toList ∧
        (list (d.put name (.file bytes'))).filter (fun info => fileName info.id == name) =
          (info? (name, .file bytes')).toList ∧
        (list (d.put name (.file bytes'))).filter (fun info => fileName info.id != name) =
          (list d).filter fun info => fileName info.id != name := by
  refine ⟨pairwise_list hnames, fun info hinfo => ?_, fun name bytes bytes' hfile => ?_⟩
  · obtain ⟨bytes, hfile, hread⟩ := find?_of_mem_list hnames hinfo
    have hcontains : contains d info.id = true := by
      rw [contains, hfile]
      rfl
    refine ⟨⟨bytes, hfile, hread⟩, hcontains, fun kind records => ?_, _, ?_, list_erase hnames hinfo⟩
    · rw [put, if_pos hcontains]
    · rw [remove, Directory.removeFile, hfile]
      rfl
  · exact ⟨filter_fileName_list hnames hfile,
      filter_fileName_list (Directory.nodup_names_put hnames _) (d.find?_put name _),
      filter_list_put d name _⟩

/-- Two files claim one dataset, and only the one with its name is listed. The other is listed as
soon as it says that it is the dataset of its own name. -/
theorem list_sound_of_two_claims :
    let ubc := "[\"ubc\",\"rooms\",7]"
    let z := "[\"z\",\"sections\",1]"
    let d : Directory := [("notes.txt", .file ubc.toUTF8), ("7a.json", .file ubc.toUTF8),
      ("73.json", .folder []), ("756263.json", .file ubc.toUTF8)]
    list d = [⟨"ubc", .rooms, 7⟩] ∧
      (∀ kind records, put d ⟨"ubc", kind, records⟩ = .error (.conflict "ubc")) ∧
      (∃ d', remove d "ubc" = .ok d' ∧ list d' = []) ∧
      ⟨"z", .sections, 1⟩ ∈ list (d.put "7a.json" (.file z.toUTF8)) ∧
      ⟨"ubc", .rooms, 7⟩ ∈ list (d.put "7a.json" (.file z.toUTF8)) := by
  intro ubc z d
  have hlist : list d = [⟨"ubc", .rooms, 7⟩] := by
    have hinfos : d.filterMap info? = [⟨"ubc", .rooms, 7⟩] := by decide +kernel
    rw [list, hinfos]
    exact List.mergeSort_singleton _
  have hmem : ⟨"ubc", .rooms, 7⟩ ∈ list d := by simp [hlist]
  obtain ⟨-, hentries, hfiles⟩ := list_sound (show d.names.Nodup by decide)
  obtain ⟨-, -, hput, d', hremove, hrest⟩ := hentries _ hmem
  obtain ⟨-, hown, hothers⟩ := hfiles "7a.json" ubc.toUTF8 z.toUTF8 rfl
  refine ⟨hlist, hput, ⟨d', hremove, by simp [hrest, hlist]⟩, ?_, ?_⟩
  · have hz : info? ("7a.json", .file z.toUTF8) = some ⟨"z", .sections, 1⟩ := by decide +kernel
    have hmem : ⟨"z", .sections, 1⟩ ∈ (list (d.put "7a.json" (.file z.toUTF8))).filter
        fun info => fileName info.id == "7a.json" := by
      rw [hown, hz]
      exact List.mem_singleton_self _
    exact List.mem_of_mem_filter hmem
  · have hubc : (fileName "ubc" != "7a.json") = true := by decide +kernel
    exact List.mem_of_mem_filter (hothers ▸ List.mem_filter.2 ⟨hmem, hubc⟩)

end Store

end Storage

end CampusQuery
