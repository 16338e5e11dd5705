import CampusQuery.Engine
import CampusQuery.Proofs.Distinct
import Mathlib.Data.List.Nodup
import Mathlib.Data.List.Perm.Subperm
/-!
Which of the records that are handed over are kept.

At any time the chosen records are the first ones of their kind with their natural identifiers among
the records that have been read, and the identifiers that have been seen are those of records of the
kind. A record of the other kind is nothing to either.
-/

namespace CampusQuery

/-- The chosen records are those of a kind that have their natural identifier first among the
records of the kind. -/
structure KeepsFirst (kind : Kind) (records chosen : List Record) : Prop where
  sublist : chosen.Sublist records
  kind_eq : ∀ r ∈ chosen, r.kind = kind
  distinct : (chosen.map Record.naturalId).Nodup
  /-- What is chosen for an identifier, if anything, is the first record of the kind with it. -/
  first : ∀ id, chosen.find? (fun r => r.naturalId = id) =
    records.find? fun r => r.kind = kind ∧ r.naturalId = id
  /-- Of equal records, it is the place of the first that counts. -/
  ordered : chosen.Pairwise fun r r' => records.idxOf r < records.idxOf r'

namespace KeepsFirst

variable {kind : Kind} {records chosen : List Record} {r : Record}

theorem nil (kind : Kind) : KeepsFirst kind [] [] :=
  ⟨.slnil, by simp, List.nodup_nil, fun _ => rfl, .nil⟩

/-- What is read later does not move the places of the chosen records. -/
theorem ordered_append (h : KeepsFirst kind records chosen) (more : List Record) :
    chosen.Pairwise fun r r' => (records ++ more).idxOf r < (records ++ more).idxOf r' := by
  refine h.ordered.imp_of_mem fun hr hr' hlt => ?_
  rwa [List.idxOf_append_of_mem (h.sublist.subset hr),
    List.idxOf_append_of_mem (h.sublist.subset hr')]

/-- A record of the other kind, or with the identifier of an earlier one of the kind, is left. -/
theorem skip (h : KeepsFirst kind records chosen)
    (hr : r.kind = kind → ∃ r' ∈ records, r'.kind = kind ∧ r'.naturalId = r.naturalId) :
    KeepsFirst kind (records ++ [r]) chosen := by
  refine ⟨h.sublist.trans (List.sublist_append_left _ _), h.kind_eq, h.distinct, fun id => ?_,
    h.ordered_append [r]⟩
  rw [h.first, List.find?_append]
  by_cases hid : r.kind = kind ∧ r.naturalId = id
  · obtain ⟨r', hr', hkind, heq⟩ := hr hid.1
    have hfound : (records.find? fun r => r.kind = kind ∧ r.naturalId = id).isSome := by
      rw [List.find?_isSome]
      exact ⟨r', hr', by simp [hkind, heq, hid.2]⟩
    rw [Option.or_of_isSome hfound]
  · rw [List.find?_cons_of_neg (by simpa using hid), List.find?_nil, Option.or_none]

/-- A record of the kind with a new identifier is chosen. -/
theorem concat (h : KeepsFirst kind records chosen) (hkind : r.kind = kind)
    (hnew : ∀ r' ∈ records, r'.kind = kind → r'.naturalId ≠ r.naturalId) :
    KeepsFirst kind (records ++ [r]) (chosen ++ [r]) := by
  have hother : ∀ r' ∈ chosen, r'.naturalId ≠ r.naturalId := fun r' hr' =>
    hnew r' (h.sublist.subset hr') (h.kind_eq r' hr')
  have hplace : r ∉ records := fun hr => hnew r hr hkind rfl
  refine ⟨h.sublist.append (.refl _), ?_, ?_, fun id => ?_, ?_⟩
  · simpa [or_imp, forall_and, hkind] using h.kind_eq
  · rw [List.map_append, List.nodup_append]
    exact ⟨h.distinct, List.nodup_singleton _, by simpa using hother⟩
  · rw [List.find?_append, List.find?_append, h.first]
    simp [hkind, List.find?_cons]
  · rw [List.pairwise_append]
    refine ⟨h.ordered_append [r], List.pairwise_singleton _ _, fun r' hr' last hlast => ?_⟩
    obtain rfl := List.mem_singleton.1 hlast
    have hmem := h.sublist.subset hr'
    rw [List.idxOf_append_of_mem hmem, List.idxOf_append_of_notMem hplace]
    exact Nat.lt_add_right _ (List.idxOf_lt_length_of_mem hmem)

/-- Where all records are of the kind and none shares its identifier, all are chosen. -/
theorem eq_self (h : KeepsFirst kind records chosen) (hkind : ∀ r ∈ records, r.kind = kind)
    (hdistinct : (records.map Record.naturalId).Nodup) : chosen = records := by
  have hall : records.map Record.naturalId ⊆ chosen.map Record.naturalId := by
    intro id hid
    obtain ⟨r, hr, rfl⟩ := List.mem_map.1 hid
    have hfound : (chosen.find? fun r' => r'.naturalId = r.naturalId).isSome := by
      rw [h.first, List.find?_isSome]
      exact ⟨r, hr, by simp [hkind r hr]⟩
    obtain ⟨r', hr', heq⟩ := List.find?_isSome.1 hfound
    exact List.mem_map.2 ⟨r', hr', of_decide_eq_true heq⟩
  have hlength := (List.subperm_of_subset hdistinct hall).length_le
  rw [List.length_map, List.length_map] at hlength
  exact h.sublist.eq_of_length_le hlength

/-- Nothing is chosen only where there is nothing of the kind. -/
theorem eq_nil_iff (h : KeepsFirst kind records chosen) :
    chosen = [] ↔ ∀ r ∈ records, r.kind ≠ kind := by
  constructor
  · rintro rfl r hr hkind
    have hnone := h.first r.naturalId
    rw [List.find?_nil, eq_comm, List.find?_eq_none] at hnone
    exact hnone r hr (by simp [hkind])
  · intro hnone
    rw [List.eq_nil_iff_forall_not_mem]
    exact fun r hr => hnone r (h.sublist.subset hr) (h.kind_eq r hr)

end KeepsFirst

/-! ### Reading the records -/

namespace Selection

variable {kind : Kind} {records : List Record} {s : Selection}

/-- What a selection is after some records have been read. -/
structure Follows (kind : Kind) (records : List Record) (s : Selection) : Prop where
  keepsFirst : KeepsFirst kind records s.chosen.reverse
  mem_seen : ∀ id, id ∈ s.seen ↔ ∃ r ∈ records, r.kind = kind ∧ r.naturalId = id

theorem follows_empty (kind : Kind) : empty.Follows kind [] :=
  ⟨.nil kind, by simp [empty]⟩

theorem Follows.push (h : s.Follows kind records) (r : Record) :
    (s.push kind r).Follows kind (records ++ [r]) := by
  unfold Selection.push
  split_ifs with hkind hseen
  · -- The identifier of a record of the other kind may still come first.
    refine ⟨h.keepsFirst.skip fun heq => absurd heq hkind, fun id => ?_⟩
    simp [h.mem_seen, hkind]
  · rw [Std.HashSet.contains_iff_mem, h.mem_seen] at hseen
    refine ⟨h.keepsFirst.skip fun _ => hseen, fun id => ?_⟩
    rw [h.mem_seen]
    constructor
    · rintro ⟨r', hr', hid⟩
      exact ⟨r', List.mem_append_left _ hr', hid⟩
    · rintro ⟨r', hr', hid⟩
      rcases List.mem_append.1 hr' with hr' | hr'
      · exact ⟨r', hr', hid⟩
      · obtain rfl := List.mem_singleton.1 hr'
        exact hid.2 ▸ hseen
  · rw [not_not] at hkind
    rw [Std.HashSet.contains_iff_mem, h.mem_seen] at hseen
    have hnew : ∀ r' ∈ records, r'.kind = kind → r'.naturalId ≠ r.naturalId :=
      fun r' hr' hkind' heq => hseen ⟨r', hr', hkind', heq⟩
    refine ⟨?_, fun id => ?_⟩
    · rw [List.reverse_cons]
      exact h.keepsFirst.concat hkind hnew
    · rw [Std.HashSet.mem_insert, h.mem_seen, beq_iff_eq]
      simp [or_and_right, exists_or, hkind, or_comm]

theorem Follows.foldl (h : s.Follows kind records) (more : List Record) :
    (more.foldl (Selection.push kind) s).Follows kind (records ++ more) := by
  induction more generalizing s records with
  | nil => rwa [List.append_nil]
  | cons r more ih =>
    have hrest := ih (h.push r)
    rwa [List.append_assoc] at hrest

/-- What is chosen is what has been chosen and, of the rest, the first of each identifier that has
not been seen. -/
theorem chosen_foldl_push (kind : Kind) (s : Selection) (records : List Record) :
    (records.foldl (push kind) s).chosen =
      (distinctFrom Record.naturalId s.seen (records.filter (·.kind == kind))).reverse ++
        s.chosen := by
  induction records generalizing s with
  | nil => rfl
  | cons r records ih =>
    rw [List.foldl_cons, ih, push]
    split_ifs with hkind hseen
    · rw [List.filter_cons_of_neg (by simpa using hkind)]
    · rw [not_not] at hkind
      rw [List.filter_cons_of_pos (by simpa using hkind), distinctFrom, if_pos hseen]
    · rw [not_not] at hkind
      rw [List.filter_cons_of_pos (by simpa using hkind), distinctFrom, if_neg hseen,
        List.reverse_cons, List.append_assoc, List.singleton_append]

end Selection

namespace Dataset

variable {kind : Kind} {records : List Record}

theorem keepsFirst_usable (kind : Kind) (records : List Record) :
    KeepsFirst kind records (usable kind records) :=
  ((Selection.follows_empty kind).foldl records).keepsFirst

theorem usable_eq_distinctBy (kind : Kind) (records : List Record) :
    usable kind records = distinctBy Record.naturalId (records.filter (·.kind == kind)) := by
  rw [usable, Selection.chosen_foldl_push, Selection.empty, List.append_nil, List.reverse_reverse,
    distinctBy]

theorem usable_eq (kind : Kind) (records : List Record) :
    usable kind records = (records.filter fun r => r.kind = kind).eraseDupsBy
      fun r r' => r.naturalId = r'.naturalId :=
  (usable_eq_distinctBy kind records).trans (distinctBy_eq_eraseDupsBy _)

theorem isEmpty_usable (kind : Kind) (records : List Record) :
    (usable kind records).isEmpty =
      decide ((records.filter fun r => r.kind = kind) = []) := by
  rw [Bool.eq_iff_iff, List.isEmpty_iff, decide_eq_true_iff, List.filter_eq_nil_iff,
    (keepsFirst_usable kind records).eq_nil_iff]
  simp

theorem usable_sublist (kind : Kind) (records : List Record) :
    (usable kind records).Sublist records :=
  (keepsFirst_usable kind records).sublist

theorem kind_eq_of_mem_usable {r : Record} (h : r ∈ usable kind records) : r.kind = kind :=
  (keepsFirst_usable kind records).kind_eq r h

end Dataset

/-! ### The records of a dataset -/

namespace Engine

variable {kind : Kind} {records usable : List Record}

theorem usableRecords_eq_ok_iff :
    usableRecords kind records = .ok usable ↔
      Dataset.usable kind records ≠ [] ∧ usable = Dataset.usable kind records := by
  unfold usableRecords
  by_cases hempty : Dataset.usable kind records = []
  · simp [hempty]
  · simp [hempty, eq_comm (b := usable)]

theorem usableRecords_eq_error_iff {failure : Failure} :
    usableRecords kind records = .error failure ↔
      Dataset.usable kind records = [] ∧ failure = .noUsableRecords kind := by
  unfold usableRecords
  by_cases hempty : Dataset.usable kind records = []
  · simp [hempty, eq_comm (b := failure)]
  · simp [hempty]

/-- Records are refused only if none of them is of the kind. Otherwise the first of the kind with
each natural identifier are taken, and of these all are taken again. -/
theorem usableRecords_keepsFirst (kind : Kind) (records : List Record) :
    (∀ failure, usableRecords kind records = .error failure ↔
      (∀ r ∈ records, r.kind ≠ kind) ∧ failure = .noUsableRecords kind) ∧
    ((∃ r ∈ records, r.kind = kind) → ∃ usable, usableRecords kind records = .ok usable ∧
      KeepsFirst kind records usable ∧ usableRecords kind usable = .ok usable) := by
  have hfirst := Dataset.keepsFirst_usable kind records
  refine ⟨fun failure => ?_, fun hsome => ?_⟩
  · rw [usableRecords_eq_error_iff, hfirst.eq_nil_iff]
  · have hne : Dataset.usable kind records ≠ [] := by
      rw [Ne, hfirst.eq_nil_iff]
      obtain ⟨r, hr, hkind⟩ := hsome
      exact fun hnone => hnone r hr hkind
    have hagain : Dataset.usable kind (Dataset.usable kind records) = Dataset.usable kind records :=
      (Dataset.keepsFirst_usable kind _).eq_self hfirst.kind_eq hfirst.distinct
    refine ⟨_, usableRecords_eq_ok_iff.2 ⟨hne, rfl⟩, hfirst, ?_⟩
    rw [usableRecords_eq_ok_iff, hagain]
    exact ⟨hne, rfl⟩

/-- The room with the identifier of a section is not in the way of the section. -/
theorem usableRecords_keepsFirst_of_mixed_kinds :
    let hall : Record := .ofRoom ⟨"", "", "", "", "", "", "", "1", .zero, .zero, .zero⟩
    let offering (dept uuid : String) : Record :=
      .ofSection ⟨dept, "310", "", "", uuid, .zero, .zero, .zero, .zero, .zero⟩
    let records := [hall, offering "cpsc" "1", offering "math" "1", offering "math" "2",
      offering "cpsc" "1"]
    (∃ r ∈ records, r.kind = .sections) ∧
      usableRecords .sections records = .ok [offering "cpsc" "1", offering "math" "2"] ∧
      usableRecords .sections [offering "cpsc" "1", offering "math" "2"] =
        .ok [offering "cpsc" "1", offering "math" "2"] := by
  intro hall offering records
  have hsome : ∃ r ∈ records, r.kind = .sections := by decide
  obtain ⟨usable, husable, -, hagain⟩ := (usableRecords_keepsFirst .sections records).2 hsome
  obtain rfl : usable = [offering "cpsc" "1", offering "math" "2"] := by
    rw [(usableRecords_eq_ok_iff.1 husable).2, Dataset.usable_eq]
    decide
  exact ⟨hsome, husable, hagain⟩

end Engine

end CampusQuery
