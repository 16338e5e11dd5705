import CampusQuery.Proofs.Answer.Rows
import Std.Data.HashMap.Lemmas
/-!
Groups are not empty, their values are finite, and their rows fit.
-/

namespace CampusQuery

namespace Transform

variable {t : Transform} {records : List Record}

/-- The records under a key are those that have it. -/
theorem getD_buckets (key : List (Option Cell.Class)) :
    (t.buckets records).getD key [] = records.filter fun r => t.groupKey r == key := by
  unfold buckets
  induction records with
  | nil => simp
  | cons r records ih =>
    rw [List.foldr_cons, Std.HashMap.getD_insert]
    by_cases hkey : t.groupKey r = key
    · subst hkey
      simp [ih]
    · rw [if_neg (by simpa using hkey), ih, List.filter_cons_of_neg (by simpa using hkey)]

theorem groups_eq (records : List Record) :
    t.groups records = (distinctBy t.groupKey records).map fun r =>
      records.filter fun r' => t.groupKey r' == t.groupKey r := by
  simp only [groups, getD_buckets]

/-- A group is some of the records, at least one. -/
theorem sublist_of_mem_groups {members : List Record} (h : members ∈ t.groups records) :
    members.Sublist records ∧ members ≠ [] := by
  rw [groups_eq] at h
  obtain ⟨r, hr, rfl⟩ := List.mem_map.1 h
  have hmem := (distinctBy_sublist records).subset hr
  refine ⟨List.filter_sublist, List.ne_nil_of_mem (a := r) ?_⟩
  simpa using hmem

end Transform

namespace Aggregate

variable {members : List Record} {rule : ApplyRule}

theorem classes_eq (field : Field) (members : List Record) : classes field members =
    (members.filterMap fun r => (r.cell? field).map Cell.toClass).eraseDups :=
  distinctBy_eq_eraseDupsBy _

/-- What selects one of two numbers by their places selects one of many. -/
theorem foldl_selects {op : Double → Double → Double} {place : Double → Int}
    (hop : ∀ {x y : Double}, x.isFinite = true → y.isFinite = true →
      op x y = x ∧ place y ≤ place x ∨ op x y = y ∧ place x ≤ place y)
    {start : Double} {numbers : List Double}
    (hfinite : ∀ x ∈ start :: numbers, x.isFinite = true) :
    numbers.foldl op start ∈ start :: numbers ∧
      ∀ x ∈ start :: numbers, place x ≤ place (numbers.foldl op start) := by
  induction numbers generalizing start with
  | nil => simp
  | cons y numbers ih =>
    rw [List.forall_mem_cons, List.forall_mem_cons] at hfinite
    obtain ⟨hstart, hy, hnumbers⟩ := hfinite
    rw [List.foldl_cons, List.forall_mem_cons, List.forall_mem_cons]
    rcases hop hstart hy with ⟨heq, hle⟩ | ⟨heq, hle⟩
    · obtain ⟨hmem, hbound⟩ := ih (List.forall_mem_cons.2 ⟨hstart, hnumbers⟩)
      rw [List.forall_mem_cons] at hbound
      rw [heq]
      refine ⟨?_, hbound.1, hle.trans hbound.1, hbound.2⟩
      exact List.cons_subset_cons start (List.subset_cons_self y numbers) hmem
    · obtain ⟨hmem, hbound⟩ := ih (List.forall_mem_cons.2 ⟨hy, hnumbers⟩)
      rw [List.forall_mem_cons] at hbound
      rw [heq]
      exact ⟨List.mem_cons_of_mem start hmem, hle.trans hbound.1, hbound.1, hbound.2⟩

/-- Finite numbers lie between the infinities. -/
theorem lt_infinities {x : Double} (hx : x.isFinite = true) :
    Double.negInfinity.lt x = true ∧ x.lt Double.posInfinity = true := by
  have hmagnitude : x.magnitude < Double.infinity := of_decide_eq_true hx
  have hlow : Double.negInfinity.ordinal = -(Double.infinity : Int) := by decide
  have hhigh : Double.posInfinity.ordinal = (Double.infinity : Int) := by decide
  have hplace : -(Double.infinity : Int) < x.ordinal ∧ x.ordinal < Double.infinity := by
    rw [Double.ordinal]
    split_ifs <;> omega
  simp only [Double.lt, Double.isNaN_eq_false hx, hlow, hhigh, hplace]
  decide

theorem max_negInfinity {x : Double} (hx : x.isFinite = true) : Double.negInfinity.max x = x := by
  unfold Double.max
  rw [if_neg (by decide), Double.isNaN_eq_false hx, if_neg Bool.false_ne_true,
    if_pos (lt_infinities hx).1]

theorem min_posInfinity {x : Double} (hx : x.isFinite = true) : Double.posInfinity.min x = x := by
  unfold Double.min
  rw [if_neg (by decide), Double.isNaN_eq_false hx, if_neg Bool.false_ne_true,
    if_pos (lt_infinities hx).2]

theorem isFinite_toCents {sum : Decimal} (h : sum.mantissa.natAbs < 2 ^ 199) :
    sum.toCents.toDouble.isFinite = true :=
  Decimal.isFinite_toDouble (Decimal.toCents_lt h).1 (Decimal.toCents_lt h).2

/-- The extremes of a group are among its numbers, and there are some. -/
theorem isFinite_extremes {numbers : List Double} (hne : numbers ≠ [])
    (hfinite : ∀ x ∈ numbers, x.isFinite = true) :
    (numbers.foldl Double.max Double.negInfinity).isFinite = true ∧
      (numbers.foldl Double.min Double.posInfinity).isFinite = true := by
  obtain ⟨x, numbers, rfl⟩ := List.exists_cons_of_ne_nil hne
  have hfirst := hfinite x List.mem_cons_self
  rw [List.foldl_cons, List.foldl_cons, max_negInfinity hfirst, min_posInfinity hfirst]
  exact ⟨hfinite _ (foldl_selects Double.max_selects hfinite).1,
    hfinite _ (foldl_selects Double.min_selects hfinite).1⟩

theorem length_classes_le (field : Field) (members : List Record) :
    (classes field members).length ≤ members.length :=
  (distinctBy_sublist _).length_le.trans (List.length_filterMap_le _ _)

theorem isFinite_of_mem_numbers {field : Field}
    (hmembers : ∀ r ∈ members, r.kind = field.kind ∧ r.Finite) :
    ∀ x ∈ members.filterMap (·.number? field), x.isFinite = true := by
  intro x hx
  obtain ⟨r, hr, hnumber⟩ := List.mem_filterMap.1 hx
  exact (hmembers r hr).2 _ _ hnumber

theorem numbers_ne_nil {field : Field} (hne : members ≠ [])
    (hmembers : ∀ r ∈ members, r.kind = field.kind ∧ r.Finite) (hnumeric : field.isNumeric = true) :
    members.filterMap (·.number? field) ≠ [] := by
  obtain ⟨r, hr⟩ := List.exists_mem_of_ne_nil _ hne
  obtain ⟨x, hx⟩ := Record.exists_number? (hmembers r hr).1.symm hnumeric
  exact List.ne_nil_of_mem (List.mem_filterMap.2 ⟨r, hr, hx⟩)

/-- The value of a rule is finite. -/
theorem isFinite_value (hmembers : members ≠ []) (hlength : members.length ≤ 2 ^ 64)
    (hrecords : ∀ r ∈ members, r.kind = rule.field.kind ∧ r.Finite)
    (hnumeric : rule.aggregate ≠ .count → rule.field.isNumeric = true) {x : Double}
    (h : value rule members = .ok x) : x.isFinite = true := by
  have hfinite := isFinite_of_mem_numbers hrecords
  have hbound : Decimal.bound ≤ 2 ^ 199 := by decide
  unfold value at h
  cases hrule : rule.aggregate with
  | max =>
    simp only [hrule] at h
    cases h
    have hne := numbers_ne_nil hmembers hrecords (hnumeric (by simp [hrule]))
    exact (isFinite_extremes hne hfinite).1
  | min =>
    simp only [hrule] at h
    cases h
    have hne := numbers_ne_nil hmembers hrecords (hnumeric (by simp [hrule]))
    exact (isFinite_extremes hne hfinite).2
  | sum =>
    simp only [hrule] at h
    obtain ⟨sum, hsum, hpure⟩ := Outcome.bind_eq_ok_iff.1 h
    cases hpure
    exact isFinite_toCents ((exactSum_lt hsum).trans_le hbound)
  | avg =>
    simp only [hrule] at h
    obtain ⟨sum, hsum, hrest⟩ := Outcome.bind_eq_ok_iff.1 h
    rw [List.isEmpty_eq_false_iff.2 hmembers] at hrest
    cases hrest
    exact isFinite_toCents (Decimal.divide_lt _ (exactSum_lt hsum))
  | count =>
    simp only [hrule] at h
    cases h
    apply Double.isFinite_ofInt
    have hle := length_classes_le rule.field members
    omega

end Aggregate

/-! ### Rows of groups -/

/-- After the rules have put their values one by one, the last rule of a key has the last word. -/
theorem Row.get?_foldlM_apply {members : List Record} {rules : List ApplyRule} {row row' : Row}
    (h : rules.foldlM (fun row rule => do
      return row.insert rule.key (.number (← Aggregate.value rule members))) row = .ok row')
    (k : String) :
    (rules.reverse.find? (·.key == k) = none → row'.get? k = row.get? k) ∧
      ∀ rule, rules.reverse.find? (·.key == k) = some rule →
        ∃ x, Aggregate.value rule members = .ok x ∧ row'.get? k = some (.number x) := by
  induction rules generalizing row with
  | nil =>
    cases h
    simp
  | cons rule rules ih =>
    rw [List.foldlM_cons] at h
    obtain ⟨middle, hmiddle, hrest⟩ := Outcome.bind_eq_ok_iff.1 h
    obtain ⟨x, hx, hpure⟩ := Outcome.bind_eq_ok_iff.1 hmiddle
    cases hpure
    obtain ⟨hkept, hlast⟩ := ih hrest
    rw [List.reverse_cons, List.find?_append]
    cases hfind : rules.reverse.find? (·.key == k) with
    | some rule' =>
      refine ⟨nofun, ?_⟩
      rintro _ ⟨⟩
      exact hlast rule' hfind
    | none =>
      rw [Option.none_or, hkept hfind, Row.get?_insert, List.find?_singleton]
      by_cases hk : rule.key = k
      · simp [hk, hx]
      · simp [hk, Ne.symm hk]

namespace Transform

variable {subject : Subject} {t : Transform} {entries : List (String × Json)}
  {members : List Record}

/-- What a rule reads is a field of the subject, and a number unless it counts. -/
theorem field_of_mem_apply (ht : t.Written subject entries) {rule : ApplyRule}
    (hrule : rule ∈ t.apply) : rule.field.kind = subject.kind ∧
      (rule.aggregate ≠ .count → rule.field.isNumeric = true) := by
  obtain ⟨items, -, hrules⟩ := ht.apply
  obtain ⟨j, -, hj⟩ := Outcome.exists_of_forall₂_of_mem hrules.flip hrule
  obtain ⟨target, htarget, -⟩ := hj.body
  exact ⟨htarget.kind_eq, hj.numeric⟩

theorem isFinite_of_mem_apply (ht : t.Written subject entries) (hne : members ≠ [])
    (hlength : members.length ≤ 2 ^ 64)
    (hrecords : ∀ r ∈ members, r.kind = subject.kind ∧ r.Finite) {rule : ApplyRule}
    (hrule : rule ∈ t.apply) {x : Double} (hx : Aggregate.value rule members = .ok x) :
    x.isFinite = true := by
  obtain ⟨hkind, hnumeric⟩ := field_of_mem_apply ht hrule
  exact Aggregate.isFinite_value hne hlength (fun r hr => hkind ▸ hrecords r hr) hnumeric hx

theorem exists_cell?_of_mem_group (ht : t.Written subject entries) {r : Record}
    (hkind : r.kind = subject.kind) (hfinite : r.Finite) {g : GroupKey} (hg : g ∈ t.group) :
    ∃ cell, r.cell? g.field = some cell ∧ cell.Fits g.field.isNumeric :=
  Record.exists_cell? hfinite ((ht.names g hg).kind_eq.trans hkind.symm)

/-- The row of a group fits in the columns that there are. -/
theorem fits_groupRow (ht : t.Written subject entries) {columns : List Column}
    (hcolumns : ∀ c ∈ columns, c.Available subject (some t)) (hne : members ≠ [])
    (hlength : members.length ≤ 2 ^ 64)
    (hrecords : ∀ r ∈ members, r.kind = subject.kind ∧ r.Finite) {row : Row}
    (h : t.groupRow members = .ok row) : row.Fits columns := by
  obtain ⟨first, others, rfl⟩ := List.exists_cons_of_ne_nil hne
  obtain ⟨hkind, hfinite⟩ := hrecords first List.mem_cons_self
  have hsome : ∀ g ∈ t.group, (some first).bind (·.cell? g.field) ≠ none := by
    intro g hg
    obtain ⟨cell, hcell, -⟩ := exists_cell?_of_mem_group ht hkind hfinite hg
    simp [hcell]
  unfold groupRow at h
  intro c hc
  obtain ⟨hkept, hlast⟩ := Row.get?_foldlM_apply h c.key
  have havailable := hcolumns c hc
  cases c with
  | field key f =>
    have hg : GroupKey.mk key f ∈ t.group := havailable
    have hnone : t.apply.reverse.find? (·.key == key) = none := by
      rw [List.find?_eq_none]
      intro rule hrule heq
      obtain ⟨items, -, hrules⟩ := ht.apply
      obtain rfl := eq_of_beq heq
      exact key_not_mem_of_names ht.names hrules rule (List.mem_reverse.1 hrule)
        (List.mem_map_of_mem hg)
    have hmem : key ∈ t.group.map GroupKey.key := List.mem_map_of_mem (f := GroupKey.key) hg
    obtain ⟨g, hg', hkey, hcellOf⟩ := (Row.get?_foldl_insert? hsome Row.empty key).2 hmem
    have hfield : g.field = f := by
      have hnames := ht.names g hg'
      rw [hkey] at hnames
      exact hnames.field_eq (ht.names (GroupKey.mk key f) hg)
    obtain ⟨cell, hcell, hfits⟩ := exists_cell?_of_mem_group ht hkind hfinite hg'
    exact ⟨cell, (hkept hnone).trans (hcellOf.trans hcell), hfield ▸ hfits⟩
  | applied key =>
    obtain ⟨rule, hrule, hkey⟩ := havailable
    cases hfind : t.apply.reverse.find? (·.key == key) with
    | none =>
      have hother := List.find?_eq_none.1 hfind rule (List.mem_reverse.2 hrule)
      exact absurd (beq_iff_eq.2 hkey) hother
    | some last =>
      have hmem := List.mem_reverse.1 (List.mem_of_find?_eq_some hfind)
      obtain ⟨x, hx, hcell⟩ := hlast last hfind
      exact ⟨.number x, hcell, rfl, isFinite_of_mem_apply ht hne hlength hrecords hmem hx⟩

end Transform

/-! ### Rows of queries -/

theorem Filter.matching_sublist (f : Filter) (records : List Record) :
    (f.matching records).Sublist records := by
  unfold matching
  split
  · exact List.Sublist.refl _
  · exact List.filter_sublist

theorem Query.Written.transform_written {q : Query} {j : Json} (hq : q.Written j) {t : Transform}
    (ht : q.transform = some t) : ∃ entries, t.Written ⟨q.dataset, q.kind⟩ entries := by
  obtain ⟨members, -, -, -, htransform, -⟩ := hq
  rw [ht] at htransform
  cases hj : Json.get? "TRANSFORMATIONS" members with
  | none =>
    rw [hj] at htransform
    cases htransform
  | some j =>
    rw [hj] at htransform
    obtain ⟨entries, -, hentries⟩ := Option.rel_some_some.1 htransform
    exact ⟨entries, hentries⟩

/-- All rows of a query fit in its columns. -/
theorem Query.fits_rows {q : Query} {j : Json} (hq : q.Written j) {limit : Nat}
    {records : List Record} (hlength : records.length ≤ 2 ^ 64)
    (hrecords : ∀ r ∈ records, r.kind = q.kind ∧ r.Finite) {rows : List Row}
    (h : q.rows limit records = .ok rows) : ∀ row ∈ rows, row.Fits q.options.columns := by
  obtain ⟨members, rfl, -, -, -, parts, -, hoptions⟩ := hq.members
  have hmatched := Filter.matching_sublist q.filter records
  have hlength' := hmatched.length_le.trans hlength
  have hrecords' := fun r hr => hrecords r (hmatched.subset hr)
  unfold Query.rows at h
  generalize q.filter.matching records = matched at *
  have havailable := hoptions.available
  cases ht : q.transform with
  | none =>
    rw [ht] at havailable
    simp only [ht] at h
    obtain ⟨_, -, hpure⟩ := Outcome.bind_eq_ok_iff.1 h
    cases hpure
    intro row hrow
    obtain ⟨r, hr, rfl⟩ := List.mem_map.1 hrow
    exact Row.fits_ofRecord havailable (hrecords' r hr).1 (hrecords' r hr).2
  | some t =>
    rw [ht] at havailable
    simp only [ht] at h
    obtain ⟨entries, hwritten⟩ := hq.transform_written ht
    intro row hrow
    obtain ⟨group, hgroup, hrow⟩ := Outcome.exists_of_mem_mapM_ok h hrow
    obtain ⟨hsublist, hne⟩ := Transform.sublist_of_mem_groups hgroup
    exact Transform.fits_groupRow hwritten havailable hne (hsublist.length_le.trans hlength')
      (fun r hr => hrecords' r (hsublist.subset hr)) hrow

end CampusQuery
