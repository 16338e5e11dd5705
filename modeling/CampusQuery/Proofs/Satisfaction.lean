import CampusQuery.Answer.Matching
import Mathlib.Data.List.Nodup
import Std.Data.HashSet.Lemmas
/-!
Conditions record by record.

`Filter.sat` reads a condition as a truth value of one record. The sets that `evaluate` computes do
not tell apart records of one identifier: they share what is true of one of them, as
`Filter.satTogether` says. Where natural identifiers tell the records apart, the sets hold the
identifiers of the records of which the condition is true, so `matching` is the list of those
records.
-/

namespace CampusQuery

namespace Filter

mutual
/-- The condition is true of the record. A conjunction has at least one part. -/
def sat (r : Record) : Filter → Bool
  | .all => true
  | .compare op field value => (r.number? field).any fun x => op.holds x value
  | .is field pattern => (r.text? field).any fun s => pattern.matchesText s
  | .not part => !part.sat r
  | .and parts => !parts.isEmpty && satAll r parts
  | .or parts => satAny r parts

/-- Every one of the conditions is true of the record. -/
def satAll (r : Record) : List Filter → Bool
  | [] => true
  | f :: parts => f.sat r && satAll r parts

/-- One of the conditions is true of the record. -/
def satAny (r : Record) : List Filter → Bool
  | [] => false
  | f :: parts => f.sat r || satAny r parts
end

/-! ### Records that share an identifier -/

/-- The records with an identifier. -/
def withId (id : String) (records : List Record) : List Record :=
  records.filter (·.naturalId == id)

mutual
/-- What a condition comes to for all records of one identifier together: a comparison counts for all
of them if it is true of one. -/
def satTogether (twins : List Record) : Filter → Bool
  | .all => true
  | .compare op field value => twins.any fun r => (r.number? field).any fun x => op.holds x value
  | .is field pattern => twins.any fun r => (r.text? field).any fun s => pattern.matchesText s
  | .not part => !part.satTogether twins
  | .and parts => !parts.isEmpty && satTogetherAll twins parts
  | .or parts => satTogetherAny twins parts

/-- Every one of the conditions counts for the records. -/
def satTogetherAll (twins : List Record) : List Filter → Bool
  | [] => true
  | f :: parts => f.satTogether twins && satTogetherAll twins parts

/-- One of the conditions counts for the records. -/
def satTogetherAny (twins : List Record) : List Filter → Bool
  | [] => false
  | f :: parts => f.satTogether twins || satTogetherAny twins parts
end

theorem satTogetherAll_eq_all (twins : List Record) (parts : List Filter) :
    satTogetherAll twins parts = parts.all (satTogether twins) := by
  induction parts with
  | nil => rfl
  | cons f parts ih => rw [satTogetherAll, ih, List.all_cons]

theorem satTogetherAny_eq_any (twins : List Record) (parts : List Filter) :
    satTogetherAny twins parts = parts.any (satTogether twins) := by
  induction parts with
  | nil => rfl
  | cons f parts ih => rw [satTogetherAny, ih, List.any_cons]

theorem any_of_same {twins : List Record} {r : Record} (hr : r ∈ twins)
    (hsame : ∀ r' ∈ twins, r' = r) (test : Record → Bool) : twins.any test = test r := by
  rw [Bool.eq_iff_iff, List.any_eq_true]
  constructor
  · intro h
    obtain ⟨r', hr', htest⟩ := h
    rwa [← hsame r' hr']
  · exact fun htest => ⟨r, hr, htest⟩

mutual
/-- One record is judged by its own fields. -/
theorem satTogether_eq_sat {twins : List Record} {r : Record} (hr : r ∈ twins)
    (hsame : ∀ r' ∈ twins, r' = r) : (f : Filter) → f.satTogether twins = f.sat r
  | .all => rfl
  | .compare .. => any_of_same hr hsame _
  | .is .. => any_of_same hr hsame _
  | .not part => by
    rw [satTogether, sat, satTogether_eq_sat hr hsame part]
  | .and parts => by
    rw [satTogether, sat, (satTogether_parts hr hsame parts).1]
  | .or parts => by
    rw [satTogether, sat, (satTogether_parts hr hsame parts).2]

theorem satTogether_parts {twins : List Record} {r : Record} (hr : r ∈ twins)
    (hsame : ∀ r' ∈ twins, r' = r) : (parts : List Filter) →
    satTogetherAll twins parts = satAll r parts ∧ satTogetherAny twins parts = satAny r parts
  | [] => ⟨rfl, rfl⟩
  | f :: parts => by
    rw [satTogetherAll, satTogetherAny, satAll, satAny, satTogether_eq_sat hr hsame f,
      (satTogether_parts hr hsame parts).1, (satTogether_parts hr hsame parts).2]
    exact ⟨rfl, rfl⟩
end

/-! ### Sets of identifiers -/

section

variable {records : List Record} {sets : List IdSet} {id : String}

theorem mem_allIds : id ∈ allIds records ↔ ∃ r ∈ records, r.naturalId = id := by
  simp [allIds, Std.HashSet.mem_ofList]

theorem mem_idsWhere {test : Record → Bool} :
    id ∈ idsWhere test records ↔ ∃ r ∈ records, test r = true ∧ r.naturalId = id := by
  simp [idsWhere, Std.HashSet.mem_ofList, and_assoc]

theorem mem_complement {excluded : IdSet} :
    id ∈ (allIds records).filter (fun id => !excluded.contains id) ↔
      (∃ r ∈ records, r.naturalId = id) ∧ id ∉ excluded := by
  simp [Std.HashSet.mem_filter, mem_allIds]

theorem mem_meet : id ∈ meet sets ↔ sets ≠ [] ∧ ∀ set ∈ sets, id ∈ set := by
  have hfold (rest : List IdSet) (first : IdSet) :
      id ∈ rest.foldl (fun acc set => acc.filter set.contains) first ↔
        id ∈ first ∧ ∀ set ∈ rest, id ∈ set := by
    induction rest generalizing first with
    | nil => simp
    | cons set rest ih => simp [ih, Std.HashSet.mem_filter, and_assoc]
  cases sets with
  | nil => simp [meet]
  | cons first rest => simp [meet, hfold]

theorem mem_join : id ∈ join sets ↔ ∃ set ∈ sets, id ∈ set := by
  have hfold (sets : List IdSet) (acc : IdSet) :
      id ∈ sets.foldl (· ∪ ·) acc ↔ id ∈ acc ∨ ∃ set ∈ sets, id ∈ set := by
    induction sets generalizing acc with
    | nil => simp
    | cons set sets ih =>
      rw [List.foldl_cons, ih, ← Std.HashSet.contains_iff_mem, Std.HashSet.contains_union,
        Bool.or_eq_true, Std.HashSet.contains_iff_mem, Std.HashSet.contains_iff_mem]
      simp [or_assoc]
  rw [join, hfold]
  simp

theorem evaluateAll_eq_map (records : List Record) (parts : List Filter) :
    evaluateAll records parts = parts.map (evaluate records) := by
  induction parts with
  | nil => rfl
  | cons f parts ih => rw [evaluateAll, ih, List.map_cons]

theorem any_withId {test : Record → Bool} :
    (withId id records).any test = true ↔ ∃ r ∈ records, test r = true ∧ r.naturalId = id := by
  simp [withId, and_comm]

end

mutual
/-- The set of a condition has the identifiers of records for which the condition counts. -/
theorem mem_evaluate {records : List Record} {id : String} : (f : Filter) →
    (id ∈ f.evaluate records ↔
      (∃ r ∈ records, r.naturalId = id) ∧ f.satTogether (withId id records) = true)
  | .all => by
    simp [evaluate, satTogether, mem_allIds]
  | .compare .. => by
    rw [evaluate, satTogether, mem_idsWhere, any_withId]
    exact ⟨fun h => ⟨h.imp fun r h => ⟨h.1, h.2.2⟩, h⟩, And.right⟩
  | .is .. => by
    rw [evaluate, satTogether, mem_idsWhere, any_withId]
    exact ⟨fun h => ⟨h.imp fun r h => ⟨h.1, h.2.2⟩, h⟩, And.right⟩
  | .not part => by
    rw [evaluate, satTogether, mem_complement, mem_evaluate part]
    exact and_congr_right fun hid => by simp [hid]
  | .and [] => by
    simp [evaluate, evaluateAll, meet, satTogether]
  | .and (f :: parts) => by
    have hparts := @mem_evaluate_of_mem records id (f :: parts)
    rw [evaluate, satTogether, evaluateAll_eq_map, mem_meet, satTogetherAll_eq_all,
      List.forall_mem_map, forall₂_congr hparts, List.isEmpty_cons, Bool.not_false, Bool.true_and,
      List.all_eq_true]
    constructor
    · intro h
      exact ⟨(h.2 f List.mem_cons_self).1, fun part hpart => (h.2 part hpart).2⟩
    · intro h
      exact ⟨List.cons_ne_nil _ _, fun part hpart => ⟨h.1, h.2 part hpart⟩⟩
  | .or parts => by
    have hparts := @mem_evaluate_of_mem records id parts
    rw [evaluate, satTogether, evaluateAll_eq_map, mem_join, satTogetherAny_eq_any,
      List.any_eq_true]
    constructor
    · intro h
      obtain ⟨_, hset, hid⟩ := h
      obtain ⟨part, hpart, rfl⟩ := List.mem_map.1 hset
      obtain ⟨hrecord, hsat⟩ := (hparts part hpart).1 hid
      exact ⟨hrecord, part, hpart, hsat⟩
    · intro h
      obtain ⟨hrecord, part, hpart, hsat⟩ := h
      exact ⟨_, List.mem_map_of_mem hpart, (hparts part hpart).2 ⟨hrecord, hsat⟩⟩

theorem mem_evaluate_of_mem {records : List Record} {id : String} : (parts : List Filter) →
    ∀ part ∈ parts, (id ∈ part.evaluate records ↔
      (∃ r ∈ records, r.naturalId = id) ∧ part.satTogether (withId id records) = true)
  | [] => by simp
  | f :: parts => by
    rw [List.forall_mem_cons]
    exact ⟨mem_evaluate f, mem_evaluate_of_mem parts⟩
end

/-- Choosing records by the set of the trivial condition chooses them all. -/
theorem matching_eq_filter_evaluate (f : Filter) (records : List Record) :
    f.matching records = records.filter fun r => (f.evaluate records).contains r.naturalId := by
  cases f with
  | all =>
    symm
    rw [matching, List.filter_eq_self]
    intro r hr
    rw [← Std.HashSet.mem_iff_contains, evaluate, mem_allIds]
    exact ⟨r, hr, rfl⟩
  | _ => rfl

/-- The matching records are those for whose identifiers the condition counts. -/
theorem matching_eq_filter_satTogether (f : Filter) (records : List Record) :
    f.matching records =
      records.filter fun r => f.satTogether (withId r.naturalId records) := by
  rw [matching_eq_filter_evaluate]
  apply List.filter_congr
  intro r hr
  rw [Bool.eq_iff_iff, ← Std.HashSet.mem_iff_contains, mem_evaluate]
  exact and_iff_right ⟨r, hr, rfl⟩

/-! ### Records with identifiers of their own -/

/-- The set holds the identifiers of the records that pass the test. -/
def Selects (records : List Record) (ids : IdSet) (test : Record → Bool) : Prop :=
  ∀ id, id ∈ ids ↔ ∃ r ∈ records, test r = true ∧ r.naturalId = id

section

variable {records : List Record} {ids : IdSet} {test : Record → Bool} {r : Record}

theorem satTogether_withId (hr : r ∈ records)
    (hown : ∀ r' ∈ records, r'.naturalId = r.naturalId → r' = r) (f : Filter) :
    f.satTogether (withId r.naturalId records) = f.sat r := by
  apply satTogether_eq_sat
  · exact List.mem_filter.2 ⟨hr, beq_self_eq_true _⟩
  · intro r' hr'
    rw [withId, List.mem_filter, beq_iff_eq] at hr'
    exact hown r' hr'.1 hr'.2

variable (hdistinct : (records.map Record.naturalId).Nodup)
include hdistinct

theorem eq_of_naturalId_eq {r' : Record} (hr : r ∈ records) (hr' : r' ∈ records)
    (heq : r.naturalId = r'.naturalId) : r = r' :=
  List.inj_on_of_nodup_map hdistinct hr hr' heq

/-- A record is in a set of identifiers as far as the records are told apart. -/
theorem Selects.mem_iff (hids : Selects records ids test) (hr : r ∈ records) :
    r.naturalId ∈ ids ↔ test r = true := by
  rw [hids]
  constructor
  · intro h
    rcases h with ⟨r', hr', htest, heq⟩
    rwa [← eq_of_naturalId_eq hdistinct hr' hr heq]
  · intro htest
    exact ⟨r, hr, htest, rfl⟩

/-- The set of a condition selects the records of which the condition is true. -/
theorem evaluate_selects (f : Filter) :
    Selects records (f.evaluate records) fun r => f.sat r := by
  have hown {r : Record} (hr : r ∈ records) :
      f.satTogether (withId r.naturalId records) = f.sat r :=
    satTogether_withId hr (fun r' hr' => eq_of_naturalId_eq hdistinct hr' hr) f
  intro id
  rw [mem_evaluate]
  constructor
  · intro h
    obtain ⟨⟨r, hr, rfl⟩, hsat⟩ := h
    exact ⟨r, hr, (hown hr).symm.trans hsat, rfl⟩
  · intro h
    obtain ⟨r, hr, hsat, rfl⟩ := h
    exact ⟨⟨r, hr, rfl⟩, (hown hr).trans hsat⟩

end

/-- Where natural identifiers tell the records apart, the matching records are those of which the
condition is true, in their order, and the shortcut for the trivial condition is no exception to
the choice by sets. -/
theorem matching_eq_filter_sat (f : Filter) (records : List Record)
    (hdistinct : (records.map Record.naturalId).Nodup) :
    f.matching records = records.filter (fun r => f.sat r) ∧
      f.matching records =
        records.filter fun r => (f.evaluate records).contains r.naturalId := by
  refine ⟨?_, matching_eq_filter_evaluate f records⟩
  rw [matching_eq_filter_evaluate]
  apply List.filter_congr
  intro r hr
  rw [Bool.eq_iff_iff, ← Std.HashSet.mem_iff_contains]
  exact (evaluate_selects hdistinct f).mem_iff hdistinct hr

/-- A section and two rooms: of the rooms, the one with a place that is no number is left when
those with more than a hundred places are taken away. -/
theorem matching_not_of_mixed_kinds :
    let offering : Record := .ofSection
      ⟨"cpsc", "310", "", "", "1", .zero, .zero, .zero, .zero, .zero⟩
    let hall : Record := .ofRoom ⟨"", "", "", "", "", "", "", "2", .zero, .zero, .posInfinity⟩
    let room : Record := .ofRoom
      ⟨"", "", "", "", "", "", "", "3", .zero, .zero, ⟨0x7FF8000000000000⟩⟩
    let f : Filter :=
      .and [.not (.compare .gt .seats (.ofInt 100)), .not (.is .dept (.contains "s"))]
    ([offering, hall, room].map Record.naturalId).Nodup ∧
      f.matching [offering, hall, room] = [room] := by
  intro offering hall room f
  have hdistinct : ([offering, hall, room].map Record.naturalId).Nodup := by decide
  refine ⟨hdistinct, ?_⟩
  rw [(matching_eq_filter_sat f [offering, hall, room] hdistinct).1]
  decide +kernel

end Filter

end CampusQuery
