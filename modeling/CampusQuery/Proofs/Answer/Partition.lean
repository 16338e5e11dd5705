import CampusQuery.Proofs.Answer.Reordering
/-!
Grouping divides the records.

The first record opens a group, which takes all that are alike, and the records that are left are
grouped in the same way. So every record has its place in one group, and a count of texts that tell
all records apart comes to the number of records.
-/

namespace CampusQuery

/-- What is left of a list stands in the same order. -/
theorem idxOf_lt_of_filter {α : Type} [BEq α] [LawfulBEq α] (p : α → Bool) {a b : α}
    (ha : p a = true) (hb : p b = true) {l : List α}
    (h : (l.filter p).idxOf a < (l.filter p).idxOf b) : l.idxOf a < l.idxOf b := by
  induction l with
  | nil => simp at h
  | cons c l ih =>
    by_cases hc : p c = true
    · rw [List.filter_cons_of_pos hc, List.idxOf_cons, List.idxOf_cons] at h
      rw [List.idxOf_cons, List.idxOf_cons]
      cases hca : c == a with
      | true =>
        cases hcb : c == b with
        | true => simp [hca, hcb] at h
        | false => simp
      | false =>
        cases hcb : c == b with
        | true => simp [hcb] at h
        | false =>
          simp only [hca, hcb, cond_false] at h ⊢
          have := ih (by omega)
          omega
    · have hne {x : α} (hx : p x = true) : c ≠ x := by
        rintro rfl
        exact hc hx
      rw [List.filter_cons_of_neg hc] at h
      rw [List.idxOf_cons_ne l (hne ha), List.idxOf_cons_ne l (hne hb)]
      have := ih h
      omega

namespace Transform

variable {t : Transform} {records : List Record}

/-- In every field of the grouping, both records have nothing, or they have cells that compare as
equal. -/
def Alike (t : Transform) (r r' : Record) : Prop :=
  ∀ g ∈ t.group, Option.Rel (fun c c' => c.compare c' = .eq) (r.cell? g.field) (r'.cell? g.field)

theorem groupKey_eq_iff {r r' : Record} : t.groupKey r = t.groupKey r' ↔ t.Alike r r' := by
  rw [groupKey, groupKey, List.map_inj_left]
  exact forall₂_congr fun g _ => Cell.map_toClass_eq_iff

/-- How records are divided into groups. -/
structure Partition (t : Transform) (records : List Record) (groups : List (List Record)) :
    Prop where
  /-- Each record is in one group. -/
  perm : groups.flatten.Perm records
  /-- A group has its members in the order of the records. -/
  sublist : ∀ members ∈ groups, members.Sublist records ∧ members ≠ []
  /-- Two records share a group just if they are alike. -/
  share_iff : ∀ r ∈ records, ∀ r' ∈ records,
    (∃ members ∈ groups, r ∈ members ∧ r' ∈ members) ↔ t.Alike r r'
  /-- A group stands before another if one of its members appears before all of the other's. -/
  pairwise : groups.Pairwise fun members members' =>
    ∃ r ∈ members, ∀ r' ∈ members', records.idxOf r < records.idxOf r'

/-! ### One group more -/

/-- The first record's group, and the groups of the records that are not alike. -/
theorem groups_cons (t : Transform) (r : Record) (records : List Record) :
    t.groups (r :: records) = (r :: records.filter fun r' => t.groupKey r' == t.groupKey r) ::
      t.groups (records.filter fun r' => !(t.groupKey r' == t.groupKey r)) := by
  have hrest : (records.filter fun r' => decide ((t.groupKey r' == t.groupKey r) = false)) =
      records.filter fun r' => !(t.groupKey r' == t.groupKey r) := by
    congr 1
    funext r'
    cases t.groupKey r' == t.groupKey r <;> rfl
  rw [groups_eq, groups_eq, distinctBy_eq_eraseDupsBy, distinctBy_eq_eraseDupsBy,
    List.eraseDupsBy_cons, List.map_cons, hrest]
  congr 1
  · exact List.filter_cons_of_pos BEq.rfl
  · apply List.map_congr_left
    intro other hother
    have hne := (List.mem_filter.1 ((eraseDupsBy_sublist _).subset hother)).2
    have hfirst : (t.groupKey r == t.groupKey other) = false := by
      rw [BEq.comm]
      simpa using hne
    rw [List.filter_cons_of_neg (by simp [hfirst]), List.filter_filter]
    apply List.filter_congr
    intro r' _
    cases hkey : t.groupKey r' == t.groupKey other with
    | true => simp [eq_of_beq hkey, BEq.comm (a := t.groupKey other), hfirst]
    | false => rfl

theorem flatten_groups_perm (t : Transform) (records : List Record) :
    (t.groups records).flatten.Perm records := by
  induction records using filter_induction with
  | hnil => simp [groups_eq, distinctBy_eq_eraseDupsBy]
  | hcons r records ih =>
    rw [groups_cons, List.flatten_cons, List.cons_append]
    exact (((ih _).append_left _).trans (List.filter_append_perm _ records)).cons r

/-- What opens a group stands before all members of the later ones. -/
theorem pairwise_groups (t : Transform) (records : List Record) :
    (t.groups records).Pairwise fun members members' =>
      ∃ r ∈ members, ∀ r' ∈ members', records.idxOf r < records.idxOf r' := by
  induction records using filter_induction with
  | hnil => simp [groups_eq, distinctBy_eq_eraseDupsBy]
  | hcons r records ih =>
    have hother {members : List Record} {r' : Record}
        (hmembers : members ∈ t.groups (records.filter fun r' => !(t.groupKey r' == t.groupKey r)))
        (hr' : r' ∈ members) : (!(t.groupKey r' == t.groupKey r)) = true :=
      (List.mem_filter.1 ((sublist_of_mem_groups hmembers).1.subset hr')).2
    have hne {r' : Record} (hr' : (!(t.groupKey r' == t.groupKey r)) = true) : r ≠ r' := by
      rintro rfl
      simp at hr'
    rw [groups_cons, List.pairwise_cons]
    constructor
    · intro members hmembers
      refine ⟨r, List.mem_cons_self, fun r' hr' => ?_⟩
      rw [List.idxOf_cons_self, List.idxOf_cons_ne _ (hne (hother hmembers hr'))]
      exact Nat.succ_pos _
    · refine (ih _).imp_of_mem fun {members members'} hmembers hmembers' hbefore => ?_
      obtain ⟨r₁, hr₁, hbefore⟩ := hbefore
      refine ⟨r₁, hr₁, fun r₂ hr₂ => ?_⟩
      have h₁ := hother hmembers hr₁
      have h₂ := hother hmembers' hr₂
      rw [List.idxOf_cons_ne _ (hne h₁), List.idxOf_cons_ne _ (hne h₂)]
      exact Nat.succ_lt_succ (idxOf_lt_of_filter
        (fun r' => !(t.groupKey r' == t.groupKey r)) h₁ h₂ (hbefore r₂ hr₂))

theorem partition_groups (t : Transform) (records : List Record) :
    t.Partition records (t.groups records) where
  perm := flatten_groups_perm t records
  sublist := fun _ => sublist_of_mem_groups
  pairwise := pairwise_groups t records
  share_iff := by
    intro r hr r' hr'
    rw [← groupKey_eq_iff]
    constructor
    · intro h
      obtain ⟨members, hmembers, hr, hr'⟩ := h
      rw [groups_eq_map_keys] at hmembers
      obtain ⟨key, -, rfl⟩ := List.mem_map.1 hmembers
      have hkey := eq_of_beq (List.mem_filter.1 hr).2
      have hkey' := eq_of_beq (List.mem_filter.1 hr').2
      exact hkey.trans hkey'.symm
    · intro hkeys
      refine ⟨records.filter (t.groupKey · == t.groupKey r), ?_, ?_, ?_⟩
      · rw [groups_eq_map_keys]
        exact List.mem_map_of_mem (List.mem_eraseDups.2 (List.mem_map_of_mem hr))
      · exact List.mem_filter.2 ⟨hr, BEq.rfl⟩
      · exact List.mem_filter.2 ⟨hr', beq_iff_eq.2 hkeys.symm⟩

/-! ### Rows -/

/-- The rule whose value stands under a key, the last one of this key. -/
def ruleOf? (t : Transform) (key : String) : Option ApplyRule :=
  t.apply.reverse.find? (·.key == key)

/-- The cell under a key of the grouping, that of the last field of this key that the record has. -/
def keyCell? (t : Transform) (key : String) (r : Record) : Option Cell :=
  t.group.reverse.findSome? fun g => if g.key = key then r.cell? g.field else none

/-- A row has the values of the rules, and under the other keys the cells of the first member. -/
theorem get?_groupRow {members : List Record} {first : Record} (hfirst : first ∈ members.head?)
    {row : Row} (h : t.groupRow members = .ok row) (key : String) :
    (t.ruleOf? key = none → row.get? key = t.keyCell? key first) ∧
      ∀ rule, t.ruleOf? key = some rule →
        ∃ x, Aggregate.value rule members = .ok x ∧ row.get? key = some (.number x) := by
  obtain ⟨hkept, hlast⟩ := Row.get?_foldlM_apply h key
  refine ⟨fun hnone => ?_, hlast⟩
  rw [hkept hnone, Row.get?_foldl_insert?_eq, hfirst]
  exact Option.or_none

end Transform

/-! ### Counts of natural identifiers -/

/-- Only the records of a kind have its natural identifier as a field. -/
theorem Record.cell?_naturalId (kind : Kind) (r : Record) :
    r.cell? kind.naturalId = if r.kind = kind then some (.text r.naturalId) else none := by
  cases kind <;> cases r <;> rfl

/-- Where natural identifiers differ, they count the records of their kind. -/
theorem Aggregate.length_classes_naturalId {kind : Kind} {members : List Record}
    (h : ((members.filter (·.kind = kind)).map Record.naturalId).Nodup) :
    (classes kind.naturalId members).length = members.countP (·.kind = kind) := by
  have hcells : (members.filterMap fun r => (r.cell? kind.naturalId).map Cell.toClass) =
      ((members.filter (·.kind = kind)).map Record.naturalId).map Cell.Class.text := by
    simp only [Record.cell?_naturalId]
    clear h
    induction members with
    | nil => rfl
    | cons r members ih =>
      by_cases hr : r.kind = kind
      · simpa [hr, Cell.toClass] using ih
      · simpa [hr] using ih
  have hnodup := h.map fun _ _ => Cell.Class.text.inj
  have hperm := (List.perm_ext_iff_of_nodup (nodup_eraseDups _) hnodup).2 fun _ =>
    List.mem_eraseDups
  rw [classes_eq, hcells, hperm.length_eq, List.length_map, List.length_map,
    List.countP_eq_length_filter]

namespace Transform

variable {t : Transform} {records : List Record}

/-- Grouping divides the records. A row shows the first member of its group, except under the keys
of rules, where it has the value of the last of them. A rule that counts natural identifiers counts
all records of their kind, each in one group, where no two of these have the same. -/
theorem rows_partition {rows : List Row} (h : t.rows records = .ok rows) :
    t.Partition records (t.groups records) ∧
      List.Forall₂ (fun members row => ∃ first ∈ members.head?, ∀ key,
        (t.ruleOf? key = none → row.get? key = t.keyCell? key first) ∧
        ∀ rule, t.ruleOf? key = some rule →
          ∃ x, Aggregate.value rule members = .ok x ∧ row.get? key = some (.number x))
        (t.groups records) rows ∧
      ∀ kind key, t.ruleOf? key = some ⟨key, .count, kind.naturalId⟩ →
        ((records.filter (·.kind = kind)).map Record.naturalId).Nodup → ∃ counts : List Nat,
          List.Forall₂ (fun row n => row.get? key = some (.number (.ofInt n))) rows counts ∧
            counts.sum = records.countP (·.kind = kind) := by
  have hpartition := partition_groups t records
  have hrows := (List.forall₂_and_left _ _ (p := (· ∈ t.groups records))).2
    ⟨fun _ => id, Outcome.mapM_eq_ok_iff.1 h⟩
  have hhead {members : List Record} (hmembers : members ∈ t.groups records) :
      ∃ first, first ∈ members.head? :=
    Option.isSome_iff_exists.1 (List.isSome_head?.2 (hpartition.sublist members hmembers).2)
  refine ⟨hpartition, hrows.imp ?_, fun kind key hrule hnodup => ?_⟩
  · intro members row ⟨hmembers, hrow⟩
    obtain ⟨first, hfirst⟩ := hhead hmembers
    exact ⟨first, hfirst, get?_groupRow hfirst hrow⟩
  · refine ⟨(t.groups records).map (·.countP (·.kind = kind)), ?_, ?_⟩
    · refine List.forall₂_map_right_iff.2 (hrows.imp ?_).flip
      intro members row ⟨hmembers, hrow⟩
      obtain ⟨first, hfirst⟩ := hhead hmembers
      obtain ⟨x, hx, hcell⟩ := (get?_groupRow hfirst hrow key).2 _ hrule
      have hsome := (hpartition.sublist members hmembers).1.filter (·.kind = kind)
      cases hx
      rw [flip, hcell, Aggregate.length_classes_naturalId (hnodup.sublist (hsome.map _))]
    · rw [← List.countP_flatten, hpartition.perm.countP_eq]

/-- Sections and rooms together, zeros of both signs, and texts that only join to the same. -/
theorem rows_partition_of_mixed_kinds :
    let taught (dept id uuid : String) (avg : Double) : Record :=
      .ofSection ⟨dept, id, "", "", uuid, .zero, avg, .zero, .zero, .zero⟩
    let room (href : String) : Record :=
      .ofRoom ⟨"", "", "", "", "", "", "", href, .zero, .zero, .zero⟩
    let records := [taught "a|b" "c" "1" .zero, room "2", taught "a" "b|c" "3" .zero,
      taught "a|b" "c" "4" ⟨0x8000000000000000⟩, room "1"]
    let t : Transform := ⟨[⟨"ubc_dept", .dept⟩, ⟨"ubc_id", .id⟩, ⟨"ubc_avg", .avg⟩],
      [⟨"taught", .count, .uuid⟩, ⟨"rooms", .count, .href⟩]⟩
    ∃ rows, t.rows records = .ok rows ∧ rows.length = 3 ∧ t.Partition records (t.groups records) ∧
      (∃ counts : List Nat, counts.sum = 3 ∧ List.Forall₂ (fun row n =>
        row.get? "taught" = some (.number (.ofInt n))) rows counts) ∧
      ∃ counts : List Nat, counts.sum = 2 ∧ List.Forall₂ (fun row n =>
        row.get? "rooms" = some (.number (.ofInt n))) rows counts := by
  intro taught room records t
  have hlength : (t.rows records).toOption.map List.length = some 3 := by
    rw [rows, groups_eq_map_keys]
    decide +kernel
  obtain ⟨rows, hrows, hlength⟩ := Option.map_eq_some_iff.1 hlength
  have hrows := Outcome.toOption_eq_some_iff.1 hrows
  obtain ⟨hpartition, -, hcounts⟩ := rows_partition hrows
  obtain ⟨counts, htaught, hsum⟩ := hcounts .sections "taught" rfl (by decide)
  obtain ⟨counts', hrooms, hsum'⟩ := hcounts .rooms "rooms" rfl (by decide)
  exact ⟨rows, hrows, hlength, hpartition, ⟨counts, hsum, htaught⟩, counts', hsum', hrooms⟩

/-- A rule hides what a group has under the same key, and no natural identifier counts records of
both kinds. -/
theorem rows_with_shared_key :
    let records : List Record :=
      [.ofSection ⟨"cpsc", "", "", "", "1", .zero, .zero, .zero, .zero, .zero⟩,
        .ofRoom ⟨"", "", "", "", "", "", "", "2", .zero, .zero, .zero⟩]
    let t : Transform := ⟨[⟨"d", .dept⟩], [⟨"d", .count, .uuid⟩]⟩
    (records.map Record.naturalId).Nodup ∧ t.groups records = records.map ([·]) ∧
      records.map (·.cell? .dept) = [some (.text "cpsc"), none] ∧
      t.rows records =
        .ok [⟨[("d", .number (.ofInt 1))]⟩, ⟨[("d", .number (.ofInt 0))]⟩] := by
  intro records t
  have hgroups : t.groups records = records.map ([·]) := by
    rw [groups_eq_map_keys]
    decide
  refine ⟨by decide, hgroups, by decide, ?_⟩
  have hclasses (members : List Record) : Aggregate.classes .uuid members = List.eraseDups _ :=
    distinctBy_eq_eraseDupsBy _
  rw [rows, hgroups]
  simp only [records, t, List.map_cons, List.map_nil, List.mapM_cons, List.mapM_nil, groupRow,
    List.foldlM_cons, List.foldlM_nil, Aggregate.value, hclasses]
  decide +kernel

end Transform

end CampusQuery
