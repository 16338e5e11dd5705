import CampusQuery.Proofs.Answer.Cells
import CampusQuery.Proofs.Answer.Groups
/-!
Extremes and counts of a group.

The extremes start from the infinities, which no finite number leaves standing: from the first
number on, the value so far is one of the numbers, and none of the others is beyond it. What is
counted are classes of cells, so there are as many as members that differ from each other.
-/

namespace CampusQuery

/-- Both records have nothing in the field, or they have cells that compare as equal. -/
def Record.SameIn (field : Field) (r r' : Record) : Prop :=
  Option.Rel (fun c c' => c.compare c' = .eq) (r.cell? field) (r'.cell? field)

theorem Record.sameIn_eq (field : Field) : SameIn field = fun r r' =>
    (r.cell? field).map Cell.toClass = (r'.cell? field).map Cell.toClass := by
  funext r r'
  exact propext Cell.map_toClass_eq_iff.symm

namespace Aggregate

/-! ### Extremes -/

/-- The cell compares as equal to the one of a member in the field, and no member's compares to it
as `beyond`. -/
structure IsExtreme (beyond : Ordering) (field : Field) (members : List Record) (c : Cell) :
    Prop where
  attained : ∃ r ∈ members, ∃ d, r.cell? field = some d ∧ c.compare d = .eq
  bound : ∀ r ∈ members, ∃ d, r.cell? field = some d ∧ d.compare c ≠ beyond

/-- The smallest is not above the largest. -/
theorem IsExtreme.compare_ne_gt {field : Field} {members : List Record} {c d : Cell}
    (hc : IsExtreme .lt field members c) (hd : IsExtreme .gt field members d) :
    c.compare d ≠ .gt := by
  obtain ⟨r, hr, c', hc', htie⟩ := hc.attained
  obtain ⟨d', hd', hle⟩ := hd.bound r hr
  obtain rfl : c' = d' := Option.some.inj (hc'.symm.trans hd')
  rwa [Std.TransCmp.congr_left htie]

section

variable {op : Double → Double → Double} {place : Double → Int}
  (hop : ∀ {x y : Double}, x.isFinite = true → y.isFinite = true →
    op x y = x ∧ place y ≤ place x ∨ op x y = y ∧ place x ≤ place y)
include hop

/-- The number selected from a group, where any number is selected before the start. -/
theorem isExtreme_foldl {beyond : Ordering} {field : Field} {members : List Record} {start : Double}
    (hbeyond : ∀ {x y : Double}, place x ≤ place y → compare x.ordinal y.ordinal ≠ beyond)
    (hstart : ∀ {x : Double}, x.isFinite = true → op start x = x) (hne : members ≠ [])
    (hmembers : ∀ r ∈ members, r.kind = field.kind ∧ r.Finite) (hnumeric : field.isNumeric = true) :
    IsExtreme beyond field members
      (.number ((members.filterMap (·.number? field)).foldl op start)) := by
  have hcell {r : Record} {x : Double} (hx : r.number? field = some x) :
      r.cell? field = some (.number x) := by
    rw [Record.cell?, if_pos hnumeric, hx, Option.map_some]
  have hmem (x : Double) : x ∈ members.filterMap (·.number? field) ↔
      ∃ r ∈ members, r.number? field = some x := List.mem_filterMap
  have hfinite := isFinite_of_mem_numbers hmembers
  have hnumbers := numbers_ne_nil hne hmembers hnumeric
  generalize members.filterMap (·.number? field) = numbers at hmem hfinite hnumbers
  obtain ⟨x, numbers, rfl⟩ := List.exists_cons_of_ne_nil hnumbers
  obtain ⟨hselected, hbound⟩ := foldl_selects hop hfinite
  rw [List.foldl_cons, hstart (hfinite x List.mem_cons_self)]
  refine ⟨?_, fun r hr => ?_⟩
  · obtain ⟨r, hr, hnumber⟩ := (hmem _).1 hselected
    exact ⟨r, hr, _, hcell hnumber, Std.ReflCmp.compare_self⟩
  · obtain ⟨y, hy⟩ := Record.exists_number? (hmembers r hr).1.symm hnumeric
    exact ⟨.number y, hcell hy, hbeyond (hbound y ((hmem y).2 ⟨r, hr, hy⟩))⟩

end

section

variable {rule : ApplyRule} {members : List Record} (hne : members ≠ [])
  (hmembers : ∀ r ∈ members, r.kind = rule.field.kind ∧ r.Finite)
  (hnumeric : rule.field.isNumeric = true)
include hne hmembers hnumeric

theorem isExtreme_max (hrule : rule.aggregate = .max) :
    ∃ x, value rule members = .ok x ∧ IsExtreme .gt rule.field members (.number x) := by
  refine ⟨_, by rw [value, hrule]; rfl, ?_⟩
  exact isExtreme_foldl Double.max_selects Int.compare_ne_gt.2 max_negInfinity hne hmembers hnumeric

theorem isExtreme_min (hrule : rule.aggregate = .min) :
    ∃ x, value rule members = .ok x ∧ IsExtreme .lt rule.field members (.number x) := by
  refine ⟨_, by rw [value, hrule]; rfl, ?_⟩
  exact isExtreme_foldl Double.min_selects (fun h => Int.compare_ne_lt.2 (neg_le_neg_iff.1 h))
    min_posInfinity hne hmembers hnumeric

end

/-! ### Counts -/

/-- What is counted is one member for each class, where all have a cell. -/
theorem length_of_representatives {field : Field} {members chosen : List Record}
    (hcells : ∀ r ∈ members, r.cell? field ≠ none)
    (h : Representatives (Record.SameIn field) members chosen) :
    chosen.length = (classes field members).length := by
  have hmap : members.map (fun r => (r.cell? field).map Cell.toClass) =
      (members.filterMap fun r => (r.cell? field).map Cell.toClass).map some := by
    rw [List.map_filterMap, ← List.filterMap_eq_map]
    apply List.filterMap_congr
    intro r hr
    obtain ⟨c, hc⟩ := Option.ne_none_iff_exists'.1 (hcells r hr)
    simp [hc]
  have hsome (l : List Cell.Class) : (l.map some).eraseDups = l.eraseDups.map some :=
    eraseDupsBy_map some l
  rw [Record.sameIn_eq] at h
  rw [h.length_eq, hmap, hsome, List.length_map, classes_eq]

/-- A count is the number of classes: as many as there are representatives, at least one, and as
many as members just if these are pairwise different. -/
theorem count_classes {field : Field} {members : List Record} (hne : members ≠ [])
    (hcells : ∀ r ∈ members, r.cell? field ≠ none) :
    (∃ chosen, Representatives (Record.SameIn field) members chosen) ∧
    (∀ chosen, Representatives (Record.SameIn field) members chosen →
      chosen.length = (classes field members).length) ∧
    1 ≤ (classes field members).length ∧ (classes field members).length ≤ members.length ∧
    ((classes field members).length = members.length ↔
      members.Pairwise fun r r' => ¬r.SameIn field r') := by
  obtain ⟨chosen, hchosen⟩ :
      ∃ chosen, Representatives (Record.SameIn field) members chosen := by
    rw [Record.sameIn_eq]
    exact ⟨_, representatives_eraseDupsBy _ members⟩
  have hlength := length_of_representatives hcells hchosen
  refine ⟨⟨chosen, hchosen⟩, fun _ => length_of_representatives hcells, ?_, ?_, ?_⟩
  · obtain ⟨r, hr⟩ := List.exists_mem_of_ne_nil members hne
    obtain ⟨r', hr', -⟩ := hchosen.complete r hr
    rw [← hlength]
    exact List.length_pos_of_mem hr'
  · rw [← hlength]
    exact hchosen.sublist.length_le
  · rw [← hlength]
    simp only [Record.sameIn_eq] at hchosen ⊢
    exact hchosen.length_eq_length_iff

/-- The value of a rule of a query is what its word says, for each group of finite records: the
largest or the smallest of the numbers, or the number of classes of cells, which is a double as far
as whole numbers are. -/
theorem value_extremes_and_counts {j : Json} {q : Query} {t : Transform}
    (hq : Query.ofJson j = .ok q) (ht : q.transform = some t) {members : List Record}
    (hne : members ≠ []) (hmembers : ∀ r ∈ members, r.kind = q.kind ∧ r.Finite) :
    (∀ rule ∈ t.apply, rule.aggregate = .max →
      ∃ x, value rule members = .ok x ∧ IsExtreme .gt rule.field members (.number x)) ∧
    (∀ rule ∈ t.apply, rule.aggregate = .min →
      ∃ x, value rule members = .ok x ∧ IsExtreme .lt rule.field members (.number x)) ∧
    (∀ high ∈ t.apply, high.aggregate = .max →
      ∀ low : ApplyRule, low.aggregate = .min → low.field = high.field →
        ∃ x y, value low members = .ok x ∧ value high members = .ok y ∧
          (Cell.number x).compare (.number y) ≠ .gt) ∧
    ∀ rule ∈ t.apply, rule.aggregate = .count → ∃ n : Nat, value rule members = .ok (.ofInt n) ∧
      (n ≤ 2 ^ 53 → (Double.ofInt n).value = n) ∧
      (∃ chosen, Representatives (Record.SameIn rule.field) members chosen) ∧
      (∀ chosen, Representatives (Record.SameIn rule.field) members chosen →
        chosen.length = n) ∧
      1 ≤ n ∧ n ≤ members.length ∧
      (n = members.length ↔ members.Pairwise fun r r' => ¬r.SameIn rule.field r') := by
  obtain ⟨entries, hwritten⟩ := (Query.written_of_ofJson hq).transform_written ht
  have hfits {rule : ApplyRule} (hrule : rule ∈ t.apply) :
      (∀ r ∈ members, r.kind = rule.field.kind ∧ r.Finite) ∧
        (rule.aggregate ≠ .count → rule.field.isNumeric = true) := by
    obtain ⟨hkind, hnumeric⟩ := Transform.field_of_mem_apply hwritten hrule
    exact ⟨fun r hr => ⟨(hmembers r hr).1.trans hkind.symm, (hmembers r hr).2⟩, hnumeric⟩
  refine ⟨fun rule hrule hmax => ?_, fun rule hrule hmin => ?_,
    fun high hrule hmax low hmin hfield => ?_, fun rule hrule hcount => ?_⟩
  · obtain ⟨hrecords, hnumeric⟩ := hfits hrule
    exact isExtreme_max hne hrecords (hnumeric (by simp [hmax])) hmax
  · obtain ⟨hrecords, hnumeric⟩ := hfits hrule
    exact isExtreme_min hne hrecords (hnumeric (by simp [hmin])) hmin
  · obtain ⟨hrecords, hnumeric⟩ := hfits hrule
    have hnumeric := hnumeric (by simp [hmax])
    obtain ⟨y, hy, hlargest⟩ := isExtreme_max hne hrecords hnumeric hmax
    rw [← hfield] at hrecords hnumeric hlargest
    obtain ⟨x, hx, hsmallest⟩ := isExtreme_min hne hrecords hnumeric hmin
    exact ⟨x, y, hx, hy, hsmallest.compare_ne_gt hlargest⟩
  · obtain ⟨hrecords, -⟩ := hfits hrule
    have hcells : ∀ r ∈ members, r.cell? rule.field ≠ none := fun r hr =>
      Record.cell?_ne_none (hrecords r hr).1.symm
    exact ⟨_, by rw [value, hcount]; rfl, Double.value_ofInt, count_classes hne hcells⟩

/-- Three averages, of which two are zeros, are two classes. -/
theorem value_extremes_and_counts_of_zeros :
    let rule (key : String) (aggregate : Aggregate) : ApplyRule := ⟨key, aggregate, .avg⟩
    let written (key word : String) : Json :=
      .object [(key, .object [(word, .string "ubc_avg")])]
    let j : Json := .object [("WHERE", .object []),
      ("OPTIONS", .object [("COLUMNS", .array [.string "top"])]),
      ("TRANSFORMATIONS", .object [("GROUP", .array [.string "ubc_dept"]),
        ("APPLY", .array [written "top" "MAX", written "low" "MIN", written "all" "COUNT"])])]
    let taught (avg : Double) : Record :=
      .ofSection ⟨"cpsc", "", "", "", "", .zero, avg, .zero, .zero, .zero⟩
    let members := [taught ⟨0x8000000000000000⟩, taught ⟨0x4051E00000000000⟩, taught .zero]
    (∃ q t, Query.ofJson j = .ok q ∧ q.transform = some t ∧
      t.apply = [rule "top" .max, rule "low" .min, rule "all" .count]) ∧
      (∃ x, value (rule "top" .max) members = .ok x ∧ IsExtreme .gt .avg members (.number x)) ∧
      (∃ x, value (rule "low" .min) members = .ok x ∧ IsExtreme .lt .avg members (.number x)) ∧
      ∃ n : Nat, value (rule "all" .count) members = .ok (.ofInt n) ∧ 1 ≤ n ∧ n < 3 := by
  intro rule written j taught members
  let rules := [rule "top" .max, rule "low" .min, rule "all" .count]
  let t : Transform := ⟨[⟨"ubc_dept", .dept⟩], rules⟩
  let q : Query := ⟨"ubc", .sections, .all, some t, ⟨[.applied "top"], none⟩⟩
  have hq : Query.ofJson j = .ok q := rfl
  have hmembers : ∀ r ∈ members, r.kind = q.kind ∧ r.Finite := by decide
  obtain ⟨hmax, hmin, -, hcount⟩ := value_extremes_and_counts hq rfl (by simp [members]) hmembers
  obtain ⟨n, hn, -, -, -, hpos, hle, hall⟩ := hcount (rule "all" .count) (by simp [t, rules]) rfl
  refine ⟨⟨q, t, hq, rfl, rfl⟩, hmax _ (by simp [t, rules]) rfl, hmin _ (by simp [t, rules]) rfl,
    n, hn, hpos, lt_of_le_of_ne hle fun heq => ?_⟩
  -- The first and the last are zeros.
  have hdifferent := List.rel_of_pairwise_cons (hall.1 heq) (List.mem_cons_of_mem _ (.head _))
  exact hdifferent (.some (by decide))

end Aggregate

end CampusQuery
