import CampusQuery.Proofs.Storage.Entries
import CampusQuery.Proofs.Storage.Publishing
/-!
Published names and temporary names.

Whatever characters a dataset's name has, its file has a plain and short name of its own, which a
listing finds and a sweep leaves. A temporary name is never one of these: no listing finds it, and
every sweep does.
-/

namespace CampusQuery.Storage

/-- The characters in the names of the files of datasets. -/
theorem mem_of_mem_fileName {id : String} {c : Char} (hc : c ∈ (fileName id).toList) :
    c ∈ "-i0123456789abcdef.json".toList := by
  rw [toList_fileName, List.mem_append] at hc
  rcases hc with hstem | hextension
  · exact List.mem_append_left ".json".toList (mem_of_mem_stemOf hstem)
  · exact List.mem_append_right "-i0123456789abcdef".toList hextension

theorem head?_fileName {id : String} (h : id ≠ "") : (fileName id).toList.head? ≠ some '.' := by
  intro hpoint
  rw [toList_fileName, List.head?_append_of_ne_nil _ (stemOf_ne_nil h)] at hpoint
  exact absurd (mem_of_mem_stemOf (List.mem_of_head? hpoint)) (by decide)

/-- A listing passes over leftovers. -/
theorem list_put_of_isLeftover {name : String} (h : isLeftover name = true) (d : Directory)
    (node : Node) : Store.list (d.put name node) = Store.list d := by
  have hne (info : DatasetInfo) : (fileName info.id != name) = true := by
    rw [bne_iff_ne]
    rintro rfl
    rw [isLeftover_fileName] at h
    cases h
  have hothers := Store.filter_list_put d name node
  simpa only [hne, List.filter_true] using hothers

/-- The name is good for the file of a dataset: it stands for an entry of the directory itself, and
it is found by its stem and left by sweeps. -/
structure PublishedName (stem name : String) : Prop where
  no_separator : ∀ c ∈ name.toList, c ≠ '/' ∧ c ≠ '\\' ∧ c ≠ '\x00'
  no_point : name.toList.head? ≠ some '.'
  short : name.utf8ByteSize ≤ 133
  recognised : datasetStem? name = some stem
  no_leftover : isLeftover name = false
  kept : ∀ d d', Store.sweep d = .ok d' → d'.find? name = d.find? name

/-- The name is good for a file that is not complete: it is no dataset's, listings pass over it, and
sweeps take it away. -/
structure PassingName (name : String) : Prop where
  ne_fileName : ∀ id, name ≠ fileName id
  unrecognised : datasetStem? name = none
  unlisted : ∀ d node, Store.list (d.put name node) = Store.list d
  leftover : isLeftover name = true
  swept : ∀ d d', Store.sweep d = .ok d' → d'.find? name = none

/-- Different datasets have different files, if no digest is that of two long names. The file of a
dataset has a name that is good for it, and all temporary names are good for what is not complete. -/
theorem names_safe :
    (∀ id id', DigestsApart [id, id'] → id ≠ id' → stemOf id ≠ stemOf id') ∧
      (∀ id, id ≠ "" → PublishedName (stemOf id) (fileName id)) ∧
      ∀ id mark, PassingName (temporaryName (stemOf id) mark) := by
  refine ⟨fun id id' hdigests hne heq => ?_, fun id hid => ?_, fun id mark => ?_⟩
  · exact hne (eq_of_stemOf_eq hdigests (by simp) (by simp) heq)
  · refine ⟨fun c hc => ?_, head?_fileName hid, utf8ByteSize_fileName_le id,
      datasetStem?_fileName hid, isLeftover_fileName id, fun d d' hsweep => ?_⟩
    · have hmem := mem_of_mem_fileName hc
      refine ⟨?_, ?_, ?_⟩
      all_goals
        rintro rfl
        exact absurd hmem (by decide)
    · rw [sweep_eq_ok hsweep, Directory.find?_filter d (fun name => !isLeftover name),
        isLeftover_fileName]
      rfl
  · have hleftover := isLeftover_temporaryName (stemOf id) mark
    refine ⟨temporaryName_ne_fileName _ mark, datasetStem?_of_isLeftover hleftover,
      list_put_of_isLeftover hleftover, hleftover, fun d d' hsweep => ?_⟩
    rw [sweep_eq_ok hsweep, Directory.find?_filter d (fun name => !isLeftover name), hleftover]
    rfl

/-- A name at the limit of hexadecimal stems, and a long one that would lead upwards if it were a
path. -/
theorem names_safe_at_limit :
    let last := String.ofList (List.replicate 64 'a')
    let upwards := String.ofList (List.replicate 22 ['.', '.', '/']).flatten
    DigestsApart [last, upwards] ∧ stemOf last ≠ stemOf upwards ∧
      (fileName last).utf8ByteSize = 133 ∧ PublishedName (stemOf last) (fileName last) ∧
      PublishedName (stemOf upwards) (fileName upwards) ∧
      PassingName (anyTemporaryName upwards) := by
  intro last upwards
  obtain ⟨hstems, hpublished, htemporary⟩ := names_safe
  have hlong : ∀ id ∈ [last, upwards], 64 < id.utf8ByteSize → id = upwards := by decide
  have hdigests : DigestsApart [last, upwards] := fun id hid id' hid' h h' _ =>
    (hlong id hid h).trans (hlong id' hid' h').symm
  exact ⟨hdigests, hstems last upwards hdigests (by decide), by decide +kernel,
    hpublished last (by decide), hpublished upwards (by decide), htemporary upwards _⟩

end CampusQuery.Storage
