import CampusQuery.Proofs.Satisfaction
import Mathlib.Data.Set.Lattice
/-!
Conditions as sets of identifiers.

The connectives of conditions are the operations on the sets that they are evaluated to. This needs
nothing of the records: natural identifiers may repeat, and records of both kinds may be mixed. What
holds of sets then holds of conditions, and a condition and its negation share out the records.
-/

namespace CampusQuery

/-- Two lists that share out the records: both in the order of the records, without a common record,
and together all of them. -/
structure SharesOut (records chosen others : List Record) : Prop where
  chosen_sublist : chosen.Sublist records
  others_sublist : others.Sublist records
  disjoint : chosen.Disjoint others
  perm : (chosen ++ others).Perm records

theorem sharesOut_filter (p : Record → Bool) (records : List Record) :
    SharesOut records (records.filter p) (records.filter fun r => !p r) where
  chosen_sublist := List.filter_sublist
  others_sublist := List.filter_sublist
  disjoint := by
    intro r hr hr'
    have hp := (List.mem_filter.1 hr).2
    have hnot := (List.mem_filter.1 hr').2
    simp [hp] at hnot
  perm := List.filter_append_perm p records

namespace Filter

/-- The identifiers in the set of a condition. -/
def ids (records : List Record) (f : Filter) : Set String :=
  {id | id ∈ f.evaluate records}

section

variable {records : List Record} {f g : Filter} {parts others : List Filter} {id : String}

/-! ### Connectives -/

theorem mem_ids_all : id ∈ ids records .all ↔ ∃ r ∈ records, r.naturalId = id :=
  mem_allIds

theorem ids_subset_all : ids records f ⊆ ids records .all := by
  intro id hid
  exact mem_ids_all.2 ((mem_evaluate f).1 hid).1

theorem mem_ids_not : id ∈ ids records (.not f) ↔ id ∈ ids records .all ∧ id ∉ ids records f := by
  rw [mem_ids_all]
  exact mem_complement

theorem mem_ids_and :
    id ∈ ids records (.and parts) ↔ parts ≠ [] ∧ ∀ part ∈ parts, id ∈ ids records part := by
  change id ∈ meet (evaluateAll records parts) ↔ _
  rw [evaluateAll_eq_map, mem_meet, List.forall_mem_map, ne_eq, List.map_eq_nil_iff]
  rfl

theorem mem_ids_or :
    id ∈ ids records (.or parts) ↔ ∃ part ∈ parts, id ∈ ids records part := by
  change id ∈ join (evaluateAll records parts) ↔ _
  rw [evaluateAll_eq_map, mem_join]
  simp only [List.mem_map, exists_exists_and_eq_and]
  rfl

theorem ids_not : ids records (.not f) = ids records .all \ ids records f :=
  Set.ext fun _ => mem_ids_not

theorem ids_and (hne : parts ≠ []) :
    ids records (.and parts) = ⋂ part ∈ parts, ids records part := by
  ext id
  rw [mem_ids_and, Set.mem_iInter₂]
  exact and_iff_right hne

theorem ids_or : ids records (.or parts) = ⋃ part ∈ parts, ids records part := by
  ext id
  simp only [mem_ids_or, Set.mem_iUnion, exists_prop]

/-! ### Laws -/

theorem ids_not_not : ids records (.not (.not f)) = ids records f := by
  rw [ids_not, ids_not, Set.sdiff_sdiff_cancel_left ids_subset_all]

theorem ids_not_and (hne : parts ≠ []) :
    ids records (.not (.and parts)) = ids records (.or (parts.map .not)) := by
  ext id
  rw [mem_ids_not, mem_ids_and, mem_ids_or]
  constructor
  · intro h
    obtain ⟨hall, hnot⟩ := h
    simp only [not_and, not_forall] at hnot
    obtain ⟨part, hpart, hid⟩ := hnot hne
    exact ⟨.not part, List.mem_map_of_mem hpart, mem_ids_not.2 ⟨hall, hid⟩⟩
  · intro h
    obtain ⟨_, hmem, hid⟩ := h
    obtain ⟨part, hpart, rfl⟩ := List.mem_map.1 hmem
    obtain ⟨hall, hid⟩ := mem_ids_not.1 hid
    exact ⟨hall, fun h => hid (h.2 part hpart)⟩

theorem ids_not_or (hne : parts ≠ []) :
    ids records (.not (.or parts)) = ids records (.and (parts.map .not)) := by
  ext id
  rw [mem_ids_not, mem_ids_or, mem_ids_and, List.forall_mem_map]
  constructor
  · intro h
    obtain ⟨hall, hnot⟩ := h
    refine ⟨mt List.map_eq_nil_iff.1 hne, fun part hpart => mem_ids_not.2 ⟨hall, fun hid => ?_⟩⟩
    exact hnot ⟨part, hpart, hid⟩
  · intro h
    -- Some part says that the identifier is one at all.
    obtain ⟨part, hpart⟩ := List.exists_mem_of_ne_nil parts hne
    refine ⟨(mem_ids_not.1 (h.2 part hpart)).1, ?_⟩
    rintro ⟨other, hother, hid⟩
    exact (mem_ids_not.1 (h.2 other hother)).2 hid

/-- A connective does not see in which order its parts stand, nor how often. -/
theorem ids_and_congr (hsame : ∀ part, part ∈ parts ↔ part ∈ others) :
    ids records (.and parts) = ids records (.and others) := by
  ext id
  simp only [mem_ids_and, ne_eq, List.eq_nil_iff_forall_not_mem, hsame]

@[inherit_doc ids_and_congr]
theorem ids_or_congr (hsame : ∀ part, part ∈ parts ↔ part ∈ others) :
    ids records (.or parts) = ids records (.or others) := by
  ext id
  simp only [mem_ids_or, hsame]

/-! ### Chosen records -/

/-- Conditions with one set choose the same records. -/
theorem matching_congr (h : ids records f = ids records g) :
    f.matching records = g.matching records := by
  rw [matching_eq_filter_evaluate, matching_eq_filter_evaluate]
  apply List.filter_congr
  intro r _
  rw [Bool.eq_iff_iff, ← Std.HashSet.mem_iff_contains, ← Std.HashSet.mem_iff_contains]
  exact Set.ext_iff.1 h r.naturalId

theorem matching_not (f : Filter) (records : List Record) :
    (Filter.not f).matching records =
      records.filter fun r => !(f.evaluate records).contains r.naturalId := by
  rw [matching_eq_filter_evaluate]
  apply List.filter_congr
  intro r hr
  rw [Bool.eq_iff_iff, Bool.not_eq_true', ← Bool.not_eq_true, ← Std.HashSet.mem_iff_contains,
    ← Std.HashSet.mem_iff_contains]
  exact mem_ids_not.trans (and_iff_right (mem_ids_all.2 ⟨r, hr, rfl⟩))

end

/-- The laws of the sets of conditions over some records. -/
structure SetAlgebra (records : List Record) : Prop where
  all : ids records .all = {id | ∃ r ∈ records, r.naturalId = id}
  subset_all : ∀ f, ids records f ⊆ ids records .all
  not : ∀ f, ids records (.not f) = ids records .all \ ids records f
  and : ∀ parts, parts ≠ [] → ids records (.and parts) = ⋂ part ∈ parts, ids records part
  or : ∀ parts, ids records (.or parts) = ⋃ part ∈ parts, ids records part
  not_not : ∀ f, ids records (.not (.not f)) = ids records f
  not_and : ∀ parts, parts ≠ [] →
    ids records (.not (.and parts)) = ids records (.or (parts.map .not))
  not_or : ∀ parts, parts ≠ [] →
    ids records (.not (.or parts)) = ids records (.and (parts.map .not))
  and_congr : ∀ parts others, (∀ part, part ∈ parts ↔ part ∈ others) →
    ids records (.and parts) = ids records (.and others)
  or_congr : ∀ parts others, (∀ part, part ∈ parts ↔ part ∈ others) →
    ids records (.or parts) = ids records (.or others)

/-- Conditions over any records form an algebra of sets. What they choose is decided by their sets,
and each condition and its negation share out the records. -/
theorem evaluate_setAlgebra (records : List Record) :
    SetAlgebra records ∧
      (∀ f g, ids records f = ids records g → f.matching records = g.matching records) ∧
      ∀ f : Filter, SharesOut records (f.matching records) ((Filter.not f).matching records) := by
  refine ⟨?_, fun f g => matching_congr, fun f => ?_⟩
  · exact
      { all := Set.ext fun _ => mem_ids_all
        subset_all := fun _ => ids_subset_all
        not := fun _ => ids_not
        and := fun _ => ids_and
        or := fun _ => ids_or
        not_not := fun _ => ids_not_not
        not_and := fun _ => ids_not_and
        not_or := fun _ => ids_not_or
        and_congr := fun _ _ => ids_and_congr
        or_congr := fun _ _ => ids_or_congr }
  · rw [matching_eq_filter_evaluate f, matching_not]
    exact sharesOut_filter _ records

/-- Two sections with one identifier, and a room. One section has a high average and the other is of
the department, so the conjunction chooses both of them, though it is true of neither. -/
theorem evaluate_setAlgebra_of_shared_identifier :
    let taught (dept : String) (avg : Int) : Record :=
      .ofSection ⟨dept, "310", "", "", "1", .zero, .ofInt avg, .zero, .zero, .zero⟩
    let hall : Record := .ofRoom ⟨"", "", "", "", "", "", "", "2", .zero, .zero, .zero⟩
    let records := [taught "math" 90, hall, taught "cpsc" 70]
    let high : Filter := .compare .gt .avg (.ofInt 80)
    let computing : Filter := .is .dept (.exactly "cpsc")
    [high, computing] ≠ [] ∧
      ids records (.not (.and [high, computing])) =
        ids records (.or [.not high, .not computing]) ∧
      Filter.matching (.and [computing, high, computing]) records =
        Filter.matching (.and [high, computing]) records ∧
      Filter.matching (.and [high, computing]) records = [taught "math" 90, taught "cpsc" 70] ∧
      Filter.matching (.not (.and [high, computing])) records = [hall] := by
  intro taught hall records high computing
  obtain ⟨hsets, hchosen, -⟩ := evaluate_setAlgebra records
  have hne : [high, computing] ≠ [] := List.cons_ne_nil _ _
  refine ⟨hne, hsets.not_and _ hne, hchosen _ _ (hsets.and_congr _ _ ?_), ?_, ?_⟩
  · intro part
    simp only [List.mem_cons, List.not_mem_nil, or_false]
    tauto
  · rw [matching_eq_filter_satTogether]
    decide +kernel
  · rw [matching_eq_filter_satTogether]
    decide +kernel

end Filter

end CampusQuery
