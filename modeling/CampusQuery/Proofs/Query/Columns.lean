import CampusQuery.Proofs.Query.Grouping
import Mathlib.Data.List.Perm.Subperm
/-!
The columns and the order that the walk accepts are those that are written.
-/

namespace CampusQuery

theorem Subject.Names.field_eq {subject : Subject} {key : String} {f f' : Field}
    (h : subject.Names key f) (h' : subject.Names key f') : f = f' := by
  have heq := h.key_eq.symm.trans h'.key_eq
  rw [← String.toList_inj] at heq
  simp only [String.toList_append, List.append_cancel_left_eq] at heq
  exact Field.key_inj (String.toList_inj.1 heq)

/-- The column of grouped rows that a key stands for. -/
def Transform.column? (t : Transform) (key : String) : Option Column :=
  match t.group.find? (·.key == key) with
  | some g => some (.field g.key g.field)
  | none => if t.apply.any (·.key == key) then some (.applied key) else none

theorem Transform.Written.column?_eq_some_iff {subject : Subject} {t : Transform}
    {entries : List (String × Json)} (ht : t.Written subject entries) {key : String}
    {column : Column} :
    t.column? key = some column ↔ key = column.key ∧ column.Available subject (some t) := by
  obtain ⟨items, -, hrules⟩ := ht.apply
  have hfresh := key_not_mem_of_names ht.names hrules
  unfold Transform.column?
  cases hfind : t.group.find? (·.key == key) with
  | some g =>
    have hg := List.mem_of_find?_eq_some hfind
    have hkey := List.find?_some hfind
    obtain rfl := beq_iff_eq.1 hkey
    constructor
    · rintro ⟨⟩
      exact ⟨rfl, hg⟩
    · cases column with
      | field key f =>
        intro h
        rcases h with ⟨heq, hmem⟩
        obtain rfl : g.key = key := heq
        obtain rfl := (ht.names g hg).field_eq (ht.names (GroupKey.mk g.key f) hmem)
        rfl
      | applied key =>
        intro h
        rcases h with ⟨heq, rule, hrule, hkey⟩
        obtain rfl : g.key = key := heq
        exact absurd (hkey ▸ List.mem_map_of_mem hg) (hfresh rule hrule)
  | none =>
    have hgroup := List.find?_eq_none.1 hfind
    simp only [List.any_eq_true, beq_iff_eq]
    constructor
    · intro h
      split_ifs at h with hany
      cases h
      exact ⟨rfl, hany⟩
    · cases column with
      | field key' f =>
        intro h
        rcases h with ⟨rfl, hmem⟩
        exact absurd (beq_self_eq_true _) (hgroup _ hmem)
      | applied key' =>
        intro h
        rcases h with ⟨rfl, hany⟩
        exact if_pos hany

namespace Check

variable {subject : Subject}

/-- The column that a key stands for. -/
def Found (subject : Subject) (key : String) (column : Column) : Option Transform → Prop
  | none => key = column.key ∧ column.Available subject none
  | some t => t.column? key = some column

theorem column_realizes (transform : Option Transform) (key : String) :
    Realizes subject (column transform key) fun c => Found subject key c transform := by
  cases transform with
  | none =>
    apply ((fieldKey_realizes key).bind fun field =>
      Realizes.pure (Column.field key field)).of_iff
    intro c
    constructor
    · intro h
      rcases h with ⟨field, hnames, rfl⟩
      exact ⟨rfl, hnames⟩
    · cases c with
      | field key' f =>
        intro h
        rcases h with ⟨rfl, hnames⟩
        exact ⟨f, hnames, rfl⟩
      | applied key' => rintro ⟨-, ⟨⟩⟩
  | some t =>
    simp only [column, groupedColumn, Found, Transform.column?]
    cases t.group.find? (·.key == key) with
    | some g => exact (Realizes.pure _).of_iff (by simp)
    | none =>
      simp only
      split_ifs
      · exact (Realizes.pure _).of_iff (by simp)
      · exact (Realizes.throw _).of_iff (by simp)

theorem orderKey_realizes (columns : List Column) (key : String) :
    Realizes subject (orderKey columns key) fun k =>
      key = k ∧ k ∈ columns.map Column.key := by
  unfold orderKey
  split_ifs with hany
  · apply (Realizes.pure key).of_iff
    intro k
    simp only [List.any_eq_true, beq_iff_eq] at hany
    constructor
    · rintro rfl
      exact ⟨rfl, List.mem_map.2 hany⟩
    · exact fun h => h.1
  · apply (Realizes.throw _).of_iff
    intro k
    simp only [List.any_eq_true, beq_iff_eq] at hany
    simp only [List.mem_map, false_iff, not_and]
    rintro rfl
    exact hany

theorem direction_realizes (j : Json) :
    Realizes subject (direction j) fun d => j = .string d.word := by
  unfold direction
  split
  · exact (Realizes.pure _).of_iff fun d => by cases d <;> simp [Direction.word]
  · exact (Realizes.pure _).of_iff fun d => by cases d <;> simp [Direction.word]
  · next hup hdown =>
    apply (Realizes.throw _).of_iff
    intro d
    cases d with
    | up => simpa [Direction.word] using hup
    | down => simpa [Direction.word] using hdown

/-- Only one of the two names of the direction can be there, because the keys are the other
member. -/
theorem keyedOrder_written_iff {columns : List String} {entries : List (String × Json)}
    {dir : String} (hdir : dir = if (Json.get? "dir" entries).isSome then "dir" else "direction")
    {order : SortOrder} :
    order.Written columns (.object entries) ↔
      entries.length = 2 ∧ Json.get? dir entries = some (.string order.direction.word) ∧
        Json.get? "keys" entries = some (.array (order.keys.map Json.string)) ∧
        order.keys ≠ [] ∧ ∀ key ∈ order.keys, key ∈ columns := by
  constructor
  · rintro (_ | ⟨direction, keys, _, only, ⟨name, hname, hdirection⟩, hkeys, hne, hsub⟩)
    refine ⟨only, ?_, hkeys, hne, hsub⟩
    by_cases hsome : (Json.get? "dir" entries).isSome = true
    · rw [if_pos hsome] at hdir
      rcases List.mem_pair.1 hname with rfl | rfl
      · rw [hdir, hdirection]
      · have hmem (key : String) (hkey : (Json.get? key entries).isSome) :
            key ∈ entries.map Prod.fst := by
          obtain ⟨entry, hentry, heq⟩ := List.lookup_isSome_iff.1 hkey
          exact List.mem_map.2 ⟨entry, hentry, (beq_iff_eq.1 heq).symm⟩
        have hthree : ["dir", "direction", "keys"] ⊆ entries.map Prod.fst := by
          simp [hmem, hsome, hdirection, hkeys]
        have hlength := (List.subperm_of_subset (by decide) hthree).length_le
        simp [only] at hlength
    · rw [if_neg hsome] at hdir
      rcases List.mem_pair.1 hname with rfl | rfl
      · simp [hdirection] at hsome
      · rw [hdir, hdirection]
  · intro h
    rcases h with ⟨only, hdirection, hkeys, hne, hsub⟩
    refine .keys order.direction order.keys entries only ⟨dir, ?_, hdirection⟩ hkeys hne hsub
    rw [hdir]
    split_ifs <;> simp

/-- The order written as an object. -/
theorem keyedOrder_realizes (columns : List Column) (entries : List (String × Json)) :
    Realizes subject (sortOrder columns (.object entries)) fun order =>
      order.Written (columns.map Column.key) (.object entries) := by
  simp only [sortOrder]
  generalize hdir : (if (Json.get? "dir" entries).isSome then "dir" else "direction") = dir
  have hwritten (order : SortOrder) :
      order.Written (columns.map Column.key) (.object entries) ↔ _ :=
    keyedOrder_written_iff hdir.symm
  have hsame (keys keys' : List String) :
      List.Forall₂ (fun key key' => key = key' ∧ key' ∈ columns.map Column.key) keys keys' ↔
        keys = keys' ∧ ∀ key ∈ keys', key ∈ columns.map Column.key := by
    simpa using forall₂_eq_and_iff (f := id) (p := (· ∈ columns.map Column.key))
  cases hway : Json.get? dir entries with
  | none => exact (Realizes.throw _).of_iff fun order => by simp [hwritten, hway]
  | some way =>
    cases hkeys : Json.get? "keys" entries with
    | none => exact (Realizes.throw _).of_iff fun order => by simp [hwritten, hkeys]
    | some keys =>
      apply (Realizes.unless_bind ((direction_realizes way).bind fun direction =>
        (someTexts_realizes .orderKeys keys).bind fun keys => (Realizes.mapM fun key _ =>
          orderKey_realizes columns key).bind fun keys =>
            Realizes.pure (SortOrder.mk direction keys))).of_iff
      intro order
      simp only [hwritten, hway, hkeys, Option.some.injEq, hsame]
      constructor
      · intro h
        rcases h with ⟨hlength, direction, rfl, _, ⟨rfl, hne⟩, _, ⟨rfl, hsub⟩, rfl⟩
        exact ⟨of_not_not hlength, rfl, rfl, hne, hsub⟩
      · intro h
        rcases h with ⟨hlength, rfl, rfl, hne, hsub⟩
        exact ⟨not_not_intro hlength, _, rfl, _, ⟨rfl, hne⟩, _, ⟨rfl, hsub⟩, rfl⟩

theorem sortOrder_realizes (columns : List Column) (j : Json) :
    Realizes subject (sortOrder columns j) fun order =>
      order.Written (columns.map Column.key) j := by
  cases j with
  | string key =>
    apply ((orderKey_realizes columns key).bind fun k => Realizes.pure _).of_iff
    intro order
    constructor
    · intro h
      rcases h with ⟨_, ⟨rfl, hmem⟩, rfl⟩
      exact .key key hmem
    · rintro ⟨⟩
      exact ⟨key, ⟨rfl, ‹_›⟩, rfl⟩
  | object entries => exact keyedOrder_realizes columns entries
  | _ => exact (Realizes.throw _).of_iff fun order => ⟨False.elim, fun h => by cases h⟩

theorem options_realizes (transform : Option Transform) (j : Json) :
    Realizes subject (options transform j) fun o =>
      ∃ entries, j = .object entries ∧ (∀ m ∈ entries, m.1 = "COLUMNS" ∨ m.1 = "ORDER") ∧
        ∃ keys, Json.get? "COLUMNS" entries = some (.array (keys.map Json.string)) ∧ keys ≠ [] ∧
          List.Forall₂ (fun key c => Found subject key c transform) keys o.columns ∧
          Option.Rel (SortOrder.Written (o.columns.map Column.key)) o.order
            (Json.get? "ORDER" entries) := by
  unfold options
  refine (members_realizes .options j).bind (S := fun entries o => _) fun entries => ?_
  cases hforeign : entries.find? fun m => m.1 != "COLUMNS" && m.1 != "ORDER" with
  | some m =>
    refine (Realizes.throw _).of_iff fun o => ⟨False.elim, fun h => ?_⟩
    have hm := List.find?_some hforeign
    rcases h.1 m (List.mem_of_find?_eq_some hforeign) with heq | heq <;> simp [heq] at hm
  | none =>
    have honly : ∀ m ∈ entries, m.1 = "COLUMNS" ∨ m.1 = "ORDER" := by
      intro m hm
      have hnot := List.find?_eq_none.1 hforeign m hm
      by_contra hor
      simp_all
    cases hcolumns : Json.get? "COLUMNS" entries with
    | none => exact (Realizes.throw _).of_iff (by simp)
    | some columns =>
      apply ((someTexts_realizes .columns columns).bind fun keys =>
        (Realizes.mapM fun key _ => column_realizes transform key).bind fun columns =>
          (Realizes.option_mapM fun j _ => sortOrder_realizes columns j).bind fun order =>
            Realizes.pure (Options.mk columns order)).of_iff
      intro o
      constructor
      · intro h
        rcases h with ⟨keys, ⟨rfl, hne⟩, columns, hfound, order, horder, rfl⟩
        exact ⟨honly, keys, rfl, hne, hfound, horder⟩
      · intro h
        rcases h with ⟨-, keys, heq, hne, hfound, horder⟩
        cases heq
        exact ⟨keys, ⟨rfl, hne⟩, o.columns, hfound, o.order, horder, rfl⟩

end Check

end CampusQuery
