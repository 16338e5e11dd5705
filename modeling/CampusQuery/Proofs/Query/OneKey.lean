import CampusQuery.Proofs.Outcome
import CampusQuery.Proofs.Query.Grammar
/-!
Queries whose only key of a field is given.

Their grammar asks nothing of the key itself. For the subject that has the key they are queries, and
they are all queries about that subject that make use of one field only.
-/

namespace CampusQuery

/-! ### The fields of a query -/

mutual
/-- The fields that records are tested for. -/
def Filter.fields : Filter → List Field
  | .all => []
  | .and parts => fieldsEach parts
  | .or parts => fieldsEach parts
  | .not part => part.fields
  | .compare _ field _ => [field]
  | .is field _ => [field]

@[inherit_doc Filter.fields]
def Filter.fieldsEach : List Filter → List Field
  | [] => []
  | f :: parts => f.fields ++ fieldsEach parts
end

/-- The fields that records are grouped by, and those whose values are aggregated. -/
def Transform.fields (t : Transform) : List Field :=
  t.group.map GroupKey.field ++ t.apply.map ApplyRule.field

/-- The field of a column that stands for one. -/
def Column.field? : Column → Option Field
  | .field _ f => some f
  | .applied _ => none

/-- All fields that a query makes use of. -/
def Query.fields (q : Query) : List Field :=
  q.filter.fields ++ (q.transform.elim [] Transform.fields) ++
    q.options.columns.filterMap Column.field?

/-! ### Queries with one key -/

section

variable (key : String) (field : Field)

/-- A condition that is a node, and whose only key is the one of the field. -/
inductive Filter.OneKey : Json → Prop
  | and (items : List Json) (hne : items ≠ []) (hitems : ∀ j ∈ items, OneKey j) :
      OneKey (.object [("AND", .array items)])
  | or (items : List Json) (hne : items ≠ []) (hitems : ∀ j ∈ items, OneKey j) :
      OneKey (.object [("OR", .array items)])
  | not (body : Json) (hbody : OneKey body) : OneKey (.object [("NOT", body)])
  | compare (op : Comparator) (n : Number) (hnumeric : field.isNumeric = true) :
      OneKey (.object [(op.word, .object [(key, .number n)])])
  | is (pattern : Pattern) (s : String) (htext : field.isNumeric = false)
      (hs : pattern.Written s) : OneKey (.object [("IS", .object [(key, .string s)])])

/-- A computed value of the given name, for the field. -/
def ApplyRule.OneKey (name : String) (j : Json) : Prop :=
  ∃ aggregate : Aggregate, (aggregate ≠ .count → field.isNumeric = true) ∧
    j = .object [(name, .object [(aggregate.word, .string key)])]

/-- Grouping by the field, as often as one likes, with computed values of the given names. -/
structure Transform.OneKey (names : List String) (members : List (String × Json)) : Prop where
  only : members.length = 2
  group : ∃ n, Json.get? "GROUP" members = some (.array (List.replicate (n + 1) (.string key)))
  apply : ∃ rules, Json.get? "APPLY" members = some (.array rules) ∧
    List.Forall₂ (ApplyRule.OneKey key field) names rules
  plain : ∀ name ∈ names, name ≠ "" ∧ delimiter ∉ name.toList
  nodup : names.Nodup

/-- Some of the available columns, and possibly an order by some of them. -/
structure Options.OneKey (available : List String) (members : List (String × Json)) : Prop where
  only : ∀ m ∈ members, m.1 = "COLUMNS" ∨ m.1 = "ORDER"
  columns : ∃ columns : List String, columns ≠ [] ∧ (∀ c ∈ columns, c ∈ available) ∧
    Json.get? "COLUMNS" members = some (.array (columns.map Json.string)) ∧
    ∀ j ∈ Json.get? "ORDER" members, ∃ order : SortOrder, order.Written columns j

/-- A query whose only key of a field is the given one, with and without grouping. -/
structure Query.OneKey (j : Json) : Prop where
  members : ∃ members, j = .object members ∧
    (∀ m ∈ members, m.1 = "WHERE" ∨ m.1 = "OPTIONS" ∨ m.1 = "TRANSFORMATIONS") ∧
    (∃ condition, Json.get? "WHERE" members = some condition ∧
      (condition = .object [] ∨ Filter.OneKey key field condition)) ∧
    ∃ parts, Json.get? "OPTIONS" members = some (.object parts) ∧
      (Json.get? "TRANSFORMATIONS" members = none ∧ Options.OneKey [key] parts ∨
        ∃ entries names, Json.get? "TRANSFORMATIONS" members = some (.object entries) ∧
          Transform.OneKey key field names entries ∧ Options.OneKey (key :: names) parts)

end

variable {subject : Subject} {key : String} {field : Field} {j : Json}
  {members : List (String × Json)}

theorem Filter.exists_writtenEach {items : List Json}
    (h : ∀ j ∈ items, ∃ f : Filter, f.Written subject j ∧ ∀ g ∈ f.fields, g = field) :
    ∃ parts, WrittenEach subject parts items ∧ ∀ g ∈ fieldsEach parts, g = field := by
  induction items with
  | nil => exact ⟨[], trivial, by simp [fieldsEach]⟩
  | cons j items ih =>
    rw [List.forall_mem_cons] at h
    obtain ⟨⟨f, hf, hfields⟩, hrest⟩ := h
    obtain ⟨parts, hparts, hothers⟩ := ih hrest
    exact ⟨f :: parts, ⟨hf, hparts⟩, List.forall_mem_append.2 ⟨hfields, hothers⟩⟩

section

variable (hnames : subject.Names key field)
include hnames

theorem Filter.OneKey.exists_written (h : Filter.OneKey key field j) :
    ∃ f : Filter, f.Written subject j ∧ ∀ g ∈ f.fields, g = field := by
  induction h with
  | and items hne _ ih =>
    obtain ⟨parts, hparts, hfields⟩ := Filter.exists_writtenEach ih
    exact ⟨.and parts, ⟨items, rfl, hne, hparts⟩, hfields⟩
  | or items hne _ ih =>
    obtain ⟨parts, hparts, hfields⟩ := Filter.exists_writtenEach ih
    exact ⟨.or parts, ⟨items, rfl, hne, hparts⟩, hfields⟩
  | not body _ ih =>
    obtain ⟨part, hpart, hfields⟩ := ih
    exact ⟨.not part, ⟨body, rfl, hpart⟩, hfields⟩
  | compare op n hnumeric =>
    exact ⟨.compare op field n.toDouble, ⟨key, n, rfl, hnames, hnumeric, rfl⟩,
      by simp [Filter.fields]⟩
  | is pattern s htext hs =>
    exact ⟨.is field pattern, ⟨key, s, rfl, hnames, htext, hs⟩, by simp [Filter.fields]⟩

theorem Filter.exists_writtenWhole (h : j = .object [] ∨ Filter.OneKey key field j) :
    ∃ f : Filter, f.WrittenWhole subject j ∧ ∀ g ∈ f.fields, g = field := by
  rcases h with rfl | h
  · exact ⟨.all, .inl ⟨rfl, rfl⟩, by simp [Filter.fields]⟩
  · obtain ⟨f, hf, hfields⟩ := h.exists_written hnames
    exact ⟨f, .inr hf, hfields⟩

theorem ApplyRule.exists_each_written {names : List String} {items : List Json}
    (h : List.Forall₂ (ApplyRule.OneKey key field) names items)
    (hplain : ∀ name ∈ names, name ≠ "" ∧ delimiter ∉ name.toList) :
    ∃ rules : List ApplyRule, List.Forall₂ (ApplyRule.Written subject) rules items ∧
      rules.map ApplyRule.key = names ∧ ∀ rule ∈ rules, rule.field = field := by
  induction h with
  | nil => exact ⟨[], .nil, rfl, by simp⟩
  | @cons name j names items hrule _ ih =>
    rw [List.forall_mem_cons] at hplain
    obtain ⟨aggregate, hnumeric, rfl⟩ := hrule
    obtain ⟨rules, hrules, rfl, hfields⟩ := ih hplain.2
    have hwritten : ApplyRule.Written subject ⟨name, aggregate, field⟩
        (.object [(name, .object [(aggregate.word, .string key)])]) :=
      ⟨hplain.1.1, hplain.1.2, hnumeric, key, hnames, rfl⟩
    exact ⟨_ :: rules, .cons hwritten hrules, rfl, List.forall_mem_cons.2 ⟨rfl, hfields⟩⟩

theorem Transform.OneKey.exists_written {names : List String}
    (h : Transform.OneKey key field names members) :
    ∃ t : Transform, t.Written subject members ∧ GroupKey.mk key field ∈ t.group ∧
      t.apply.map ApplyRule.key = names ∧ ∀ g ∈ t.fields, g = field := by
  obtain ⟨n, hgroup⟩ := h.group
  obtain ⟨items, happly, hitems⟩ := h.apply
  obtain ⟨rules, hrules, rfl, hfields⟩ := ApplyRule.exists_each_written hnames hitems h.plain
  refine ⟨⟨List.replicate (n + 1) ⟨key, field⟩, rules⟩, ?_, ?_, rfl, ?_⟩
  · exact
      { only := h.only
        group := by rw [hgroup, List.map_replicate]
        group_ne_nil := List.cons_ne_nil _ _
        names := fun g hg => (List.eq_of_mem_replicate hg) ▸ hnames
        apply := ⟨items, happly, hrules⟩
        keys_nodup := h.nodup }
  · exact List.mem_cons_self
  · intro g hg
    rw [Transform.fields, List.map_replicate, List.mem_append] at hg
    rcases hg with hg | hg
    · exact List.eq_of_mem_replicate hg
    · obtain ⟨rule, hrule, rfl⟩ := List.mem_map.1 hg
      exact hfields rule hrule

end

/-- The column of a name, where the key is the one of the field and all else is computed. -/
def Column.named (key : String) (field : Field) (name : String) : Column :=
  if name = key then .field key field else .applied name

theorem Column.named_key (name : String) : (named key field name).key = name := by
  unfold named
  split_ifs with hname
  · exact hname.symm
  · rfl

theorem Column.eq_of_field?_named {name : String} {g : Field}
    (h : (named key field name).field? = some g) : g = field := by
  unfold named at h
  split_ifs at h
  · exact (Option.some.inj h).symm
  · cases h

theorem Options.OneKey.exists_written {available : List String} {transform : Option Transform}
    (h : Options.OneKey available members)
    (havailable : ∀ name ∈ available, (Column.named key field name).Available subject transform) :
    ∃ options : Options, options.Written subject transform members ∧
      ∀ g ∈ options.columns.filterMap Column.field?, g = field := by
  obtain ⟨columns, hne, hsub, hcolumns, horder⟩ := h.columns
  have hkeys : (columns.map (Column.named key field)).map Column.key = columns := by
    simp [Function.comp_def, Column.named_key]
  obtain ⟨order, hrel⟩ : ∃ order, Option.Rel (SortOrder.Written columns) order
      (Json.get? "ORDER" members) := by
    cases hj : Json.get? "ORDER" members with
    | none => exact ⟨none, .none⟩
    | some j =>
      obtain ⟨order, hwritten⟩ := horder j hj
      exact ⟨some order, .some hwritten⟩
  refine ⟨⟨columns.map (Column.named key field), order⟩, ?_, ?_⟩
  · exact
      { only := h.only
        columns := by simp [hcolumns, Column.named_key]
        columns_ne_nil := by simpa using hne
        available := List.forall_mem_map.2 fun name hname => havailable name (hsub name hname)
        order := by rwa [hkeys] }
  · intro g hg
    obtain ⟨c, hc, hfield⟩ := List.mem_filterMap.1 hg
    obtain ⟨name, -, rfl⟩ := List.mem_map.1 hc
    exact Column.eq_of_field?_named hfield

theorem Column.named_available (hnames : subject.Names key field) :
    ∀ name ∈ [key], (named key field name).Available subject none := by
  simp only [List.mem_singleton, forall_eq, named, if_true]
  exact hnames

theorem Column.named_available_of_mem_group {t : Transform} (h : GroupKey.mk key field ∈ t.group) :
    ∀ name ∈ key :: t.apply.map ApplyRule.key,
      (named key field name).Available subject (some t) := by
  intro name hname
  unfold named
  split_ifs with heq
  · exact h
  · rw [List.mem_cons] at hname
    exact List.mem_map.1 (hname.resolve_left heq)

namespace Query

/-- The queries of one key are queries, about the subject that has the key. -/
theorem OneKey.exists_written {id : String} (hnames : Subject.Names ⟨id, field.kind⟩ key field)
    (h : OneKey key field j) :
    ∃ q : Query, q.Written j ∧ q.dataset = id ∧ q.kind = field.kind ∧ ∀ g ∈ q.fields, g = field := by
  obtain ⟨members, rfl, honly, ⟨condition, hwhere, hcondition⟩, parts, hoptions, hshape⟩ := h
  obtain ⟨filter, hfilter, hfilters⟩ := Filter.exists_writtenWhole hnames hcondition
  rcases hshape with ⟨hplain, hparts⟩ | ⟨entries, names, htransform, hentries, hparts⟩
  · obtain ⟨options, hwritten, hcolumns⟩ := hparts.exists_written (Column.named_available hnames)
    refine ⟨⟨id, field.kind, filter, none, options⟩, ⟨members, rfl, honly,
      ⟨condition, hwhere, hfilter⟩, ?_, parts, hoptions, hwritten⟩, rfl, rfl, ?_⟩
    · rw [hplain]
      exact .none
    · intro g hg
      simp only [fields, Option.elim_none, List.append_nil, List.mem_append] at hg
      exact hg.elim (hfilters g) (hcolumns g)
  · obtain ⟨t, ht, hgroup, rfl, htransforms⟩ := hentries.exists_written hnames
    have havailable (name : String) (hname : name ∈ key :: t.apply.map ApplyRule.key) :
        (Column.named key field name).Available ⟨id, field.kind⟩ (some t) :=
      Column.named_available_of_mem_group hgroup name hname
    obtain ⟨options, hwritten, hcolumns⟩ := hparts.exists_written havailable
    refine ⟨⟨id, field.kind, filter, some t, options⟩, ⟨members, rfl, honly,
      ⟨condition, hwhere, hfilter⟩, ?_, parts, hoptions, hwritten⟩, rfl, rfl, ?_⟩
    · rw [htransform]
      exact .some ⟨entries, rfl, ht⟩
    · intro g hg
      simp only [fields, Option.elim_some, List.mem_append] at hg
      exact hg.elim (fun hg => hg.elim (hfilters g) (htransforms g)) (hcolumns g)

/-- The shortest query of a key: all records, and one column. -/
def ofKey (key : String) : Json :=
  .object [("WHERE", .object []), ("OPTIONS", .object [("COLUMNS", .array [.string key])])]

theorem oneKey_ofKey (key : String) (field : Field) : OneKey key field (ofKey key) := by
  have horder : Json.get? "ORDER" [("COLUMNS", .array [.string key])] = none := rfl
  have hoptions : Options.OneKey [key] [("COLUMNS", .array [.string key])] :=
    ⟨by simp, [key], by simp, by simp, rfl, by simp [horder]⟩
  exact ⟨_, rfl, by simp, ⟨_, rfl, .inl rfl⟩, _, rfl, .inl ⟨rfl, hoptions⟩⟩

end Query

/-! ### No other queries have one key -/

mutual
theorem Filter.oneKey_of_written : (f : Filter) → {j : Json} → f.Written subject j →
    (∀ g ∈ f.fields, g = field) → Filter.OneKey (subject.dataset ++ "_" ++ field.key) field j
  | .all, _, h, _ => h.elim
  | .and parts, _, h, hfields => by
    obtain ⟨items, rfl, hne, heach⟩ := h
    exact .and items hne (oneKey_of_writtenEach parts heach hfields)
  | .or parts, _, h, hfields => by
    obtain ⟨items, rfl, hne, heach⟩ := h
    exact .or items hne (oneKey_of_writtenEach parts heach hfields)
  | .not part, _, h, hfields => by
    obtain ⟨body, rfl, hbody⟩ := h
    exact .not body (oneKey_of_written part hbody hfields)
  | .compare op g _, _, h, hfields => by
    obtain ⟨_, n, rfl, hnames, hnumeric, rfl⟩ := h
    obtain rfl := hfields g (by simp [fields])
    rw [hnames.key_eq]
    exact .compare op n hnumeric
  | .is g pattern, _, h, hfields => by
    obtain ⟨_, s, rfl, hnames, htext, hs⟩ := h
    obtain rfl := hfields g (by simp [fields])
    rw [hnames.key_eq]
    exact .is pattern s htext hs

theorem Filter.oneKey_of_writtenEach : (parts : List Filter) → {items : List Json} →
    WrittenEach subject parts items → (∀ g ∈ fieldsEach parts, g = field) →
    ∀ j ∈ items, Filter.OneKey (subject.dataset ++ "_" ++ field.key) field j
  | [], [], _, _ => by simp
  | f :: parts, j :: items, heach, hfields => by
    rw [fieldsEach, List.forall_mem_append] at hfields
    exact List.forall_mem_cons.2 ⟨oneKey_of_written f heach.1 hfields.1,
      oneKey_of_writtenEach parts heach.2 hfields.2⟩
end

theorem ApplyRule.each_oneKey_of_written {rules : List ApplyRule} {items : List Json}
    (h : List.Forall₂ (ApplyRule.Written subject) rules items)
    (hfields : ∀ rule ∈ rules, rule.field = field) :
    List.Forall₂ (ApplyRule.OneKey (subject.dataset ++ "_" ++ field.key) field)
      (rules.map ApplyRule.key) items := by
  induction h with
  | nil => exact .nil
  | @cons rule j rules items hrule _ ih =>
    rw [List.forall_mem_cons] at hfields
    obtain ⟨rfl, hrest⟩ := hfields
    obtain ⟨-, -, hnumeric, target, hnames, rfl⟩ := hrule
    rw [hnames.key_eq]
    exact .cons ⟨rule.aggregate, hnumeric, rfl⟩ (ih hrest)

theorem Transform.oneKey_of_written {t : Transform} (h : t.Written subject members)
    (hfields : ∀ g ∈ t.fields, g = field) :
    Transform.OneKey (subject.dataset ++ "_" ++ field.key) field (t.apply.map ApplyRule.key)
      members := by
  rw [fields, List.forall_mem_append, List.forall_mem_map, List.forall_mem_map] at hfields
  obtain ⟨hgroup, hrules⟩ := hfields
  obtain ⟨items, happly, hitems⟩ := h.apply
  have hkeys : t.group.map (fun g => Json.string g.key) =
      List.replicate t.group.length (.string (subject.dataset ++ "_" ++ field.key)) := by
    rw [List.eq_replicate_iff, List.length_map, List.forall_mem_map]
    exact ⟨rfl, fun g hg => by rw [(h.names g hg).key_eq, hgroup g hg]⟩
  obtain ⟨n, hn⟩ := Nat.exists_eq_succ_of_ne_zero
    (mt List.length_eq_zero_iff.1 h.group_ne_nil)
  have hplain : ∀ rule ∈ t.apply, rule.key ≠ "" ∧ delimiter ∉ rule.key.toList := by
    intro rule hrule
    obtain ⟨j, -, hj⟩ := Outcome.exists_of_forall₂_of_mem hitems.flip hrule
    exact ⟨hj.key_ne_empty, hj.no_delimiter⟩
  exact
    { only := h.only
      group := ⟨n, by rw [h.group, hkeys, hn]⟩
      apply := ⟨items, happly, ApplyRule.each_oneKey_of_written hitems hrules⟩
      plain := List.forall_mem_map.2 hplain
      nodup := h.keys_nodup }

theorem Options.oneKey_of_written {transform : Option Transform} {options : Options}
    (h : options.Written subject transform members) {available : List String}
    (havailable : ∀ c ∈ options.columns, c.key ∈ available) : Options.OneKey available members := by
  have hcolumns : Json.get? "COLUMNS" members =
      some (.array ((options.columns.map Column.key).map Json.string)) := by
    rw [h.columns, List.map_map]
    rfl
  refine ⟨h.only, options.columns.map Column.key, by simpa using h.columns_ne_nil,
    List.forall_mem_map.2 havailable, hcolumns, fun j hj => ?_⟩
  obtain ⟨columns, order⟩ := options
  have horder := h.order
  rw [hj] at horder
  cases horder with
  | some horder => exact ⟨_, horder⟩

theorem Column.key_mem_of_available {c : Column} (h : c.Available subject none)
    (hfield : ∀ g ∈ c.field?, g = field) : c.key ∈ [subject.dataset ++ "_" ++ field.key] := by
  cases c with
  | field key f =>
    obtain rfl := hfield f rfl
    exact List.mem_singleton.2 h.key_eq
  | applied key => cases h

theorem Column.key_mem_of_available_grouped {t : Transform} (ht : t.Written subject members)
    (hfields : ∀ g ∈ t.fields, g = field) {c : Column} (h : c.Available subject (some t)) :
    c.key ∈ (subject.dataset ++ "_" ++ field.key) :: t.apply.map ApplyRule.key := by
  cases c with
  | field key f =>
    have hf : f ∈ t.fields := List.mem_append_left _ (List.mem_map_of_mem h)
    obtain rfl := hfields f hf
    exact List.mem_cons.2 (.inl (ht.names _ h).key_eq)
  | applied key => exact List.mem_cons_of_mem _ (List.mem_map.2 h)

namespace Query

theorem oneKey_of_written {q : Query} (h : q.Written j) (hfields : ∀ g ∈ q.fields, g = field) :
    OneKey (q.dataset ++ "_" ++ field.key) field j := by
  obtain ⟨members, rfl, honly, ⟨condition, hwhere, hcondition⟩, htransform, parts, hoptions,
    hwritten⟩ := h
  obtain ⟨id, kind, filter, transform, options⟩ := q
  simp only [fields, List.forall_mem_append] at hfields
  obtain ⟨⟨hfilters, htransforms⟩, hcolumns⟩ := hfields
  refine ⟨members, rfl, honly, ⟨condition, hwhere, ?_⟩, parts, hoptions, ?_⟩
  · exact hcondition.imp (fun h => h.1) fun h => Filter.oneKey_of_written filter h hfilters
  · generalize Json.get? "TRANSFORMATIONS" members = o at htransform ⊢
    cases htransform with
    | none =>
      refine .inl ⟨rfl, Options.oneKey_of_written hwritten fun c hc => ?_⟩
      exact Column.key_mem_of_available (hwritten.available c hc) fun g hg =>
        hcolumns g (List.mem_filterMap.2 ⟨c, hc, hg⟩)
    | @some t j htransform =>
      obtain ⟨entries, rfl, ht⟩ := htransform
      refine .inr ⟨entries, t.apply.map ApplyRule.key, rfl,
        Transform.oneKey_of_written ht htransforms,
        Options.oneKey_of_written hwritten fun c hc => ?_⟩
      exact Column.key_mem_of_available_grouped ht htransforms (hwritten.available c hc)

end Query

end CampusQuery
