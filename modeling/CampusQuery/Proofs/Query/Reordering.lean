import CampusQuery.Failure
import CampusQuery.Proofs.Json.Reordering
import CampusQuery.Proofs.Query.Validation
/-!
The order of members in queries.

The grammar finds members by their names and lets no object have others, so a value that writes a
query writes the same one when members are reordered. What is accepted, and as which query, is
therefore the same for both values.
-/

namespace CampusQuery

open Json (Reordered NamesOnce)

variable {subject : Subject} {j k : Json} {members others : List (String × Json)}

/-! ### Conditions -/

mutual
theorem Filter.written_of_reordered : (f : Filter) → {j k : Json} → f.Written subject j →
    j.Reordered k → f.Written subject k
  | .all, _, _, h, _ => h.elim
  | .and parts, _, _, h, hjk => by
    obtain ⟨items, rfl, hne, heach⟩ := h
    obtain ⟨others, rfl, hitems, hothers⟩ := Json.exists_of_reordered_array_member hjk
    exact ⟨others, rfl, hothers hne, writtenEach_of_reordered parts heach hitems⟩
  | .or parts, _, _, h, hjk => by
    obtain ⟨items, rfl, hne, heach⟩ := h
    obtain ⟨others, rfl, hitems, hothers⟩ := Json.exists_of_reordered_array_member hjk
    exact ⟨others, rfl, hothers hne, writtenEach_of_reordered parts heach hitems⟩
  | .not part, _, _, h, hjk => by
    obtain ⟨body, rfl, hwritten⟩ := h
    obtain ⟨body', rfl, hbody⟩ := Json.exists_of_reordered_member hjk
    exact ⟨body', rfl, written_of_reordered part hwritten hbody⟩
  | .compare op field value, _, k, h, hjk => by
    obtain ⟨key, n, rfl, hwritten⟩ := h
    obtain rfl := ((Json.fixed_number n).member key).member op.word k hjk
    exact ⟨key, n, rfl, hwritten⟩
  | .is field pattern, _, k, h, hjk => by
    obtain ⟨key, s, rfl, hwritten⟩ := h
    obtain rfl := ((Json.fixed_string s).member key).member "IS" k hjk
    exact ⟨key, s, rfl, hwritten⟩

theorem Filter.writtenEach_of_reordered : (parts : List Filter) → {items others : List Json} →
    WrittenEach subject parts items → List.Forall₂ Reordered items others →
    WrittenEach subject parts others
  | [], [], _, _, h => by
    rw [List.forall₂_nil_left_iff] at h
    rw [h]
    trivial
  | f :: parts, j :: items, _, heach, h => by
    obtain ⟨k, others, hjk, hrest, rfl⟩ := List.forall₂_cons_left_iff.1 h
    exact ⟨written_of_reordered f heach.1 hjk, writtenEach_of_reordered parts heach.2 hrest⟩
end

theorem Filter.writtenWhole_of_reordered {f : Filter} (h : f.WrittenWhole subject j)
    (hjk : j.Reordered k) : f.WrittenWhole subject k := by
  rcases h with ⟨rfl, rfl⟩ | h
  · obtain ⟨others, rfl⟩ := Json.exists_of_reordered_object hjk
    have hnames := Json.names_perm_of_reordered hjk
    rw [List.map_nil, List.nil_perm, List.map_eq_nil_iff] at hnames
    exact .inl ⟨by rw [hnames], rfl⟩
  · exact .inr (written_of_reordered f h hjk)

/-! ### Grouping -/

theorem ApplyRule.written_of_reordered {rule : ApplyRule} (h : rule.Written subject j)
    (hjk : j.Reordered k) : rule.Written subject k := by
  obtain ⟨hne, hdelimiter, hnumeric, target, hnames, rfl⟩ := h
  obtain rfl := ((Json.fixed_string target).member rule.aggregate.word).member rule.key k hjk
  exact ⟨hne, hdelimiter, hnumeric, target, hnames, rfl⟩

theorem ApplyRule.each_written_of_reordered {rules : List ApplyRule} {items items' : List Json}
    (h : List.Forall₂ (ApplyRule.Written subject) rules items)
    (hitems : List.Forall₂ Reordered items items') :
    List.Forall₂ (ApplyRule.Written subject) rules items' := by
  induction h generalizing items' with
  | nil =>
    rw [List.forall₂_nil_left_iff] at hitems
    rw [hitems]
    exact .nil
  | cons hrule _ ih =>
    obtain ⟨k, others, hjk, hrest, rfl⟩ := List.forall₂_cons_left_iff.1 hitems
    exact .cons (written_of_reordered hrule hjk) (ih hrest)

theorem length_eq_of_reordered (h : (Json.object members).Reordered (.object others)) :
    others.length = members.length := by
  have hlength := (Json.names_perm_of_reordered h).length_eq
  rw [List.length_map, List.length_map] at hlength
  exact hlength.symm

/-- What is asked of the names of members does not depend on their order. -/
theorem forall_names_of_reordered (h : (Json.object members).Reordered (.object others))
    (p : String → Prop) (hmembers : ∀ m ∈ members, p m.1) : ∀ m ∈ others, p m.1 := by
  intro m hm
  have hname := (Json.names_perm_of_reordered h).mem_iff.2 (List.mem_map_of_mem hm)
  obtain ⟨m', hm', hsame⟩ := List.mem_map.1 hname
  rw [← hsame]
  exact hmembers m' hm'

section

variable (hnames : (members.map Prod.fst).Nodup)
  (h : (Json.object members).Reordered (.object others))
include hnames h

theorem Transform.written_of_reordered {t : Transform} (ht : t.Written subject members) :
    t.Written subject others := by
  obtain ⟨rules, hrules, hwritten⟩ := ht.apply
  obtain ⟨_, happly, hrules'⟩ := Json.exists_get?_of_reordered hnames h hrules
  obtain ⟨rules', rfl, hreordered⟩ := Json.reordered_array_iff.1 hrules'
  have hkeys := Json.fixed_texts (t.group.map GroupKey.key)
  rw [List.map_map] at hkeys
  exact
    { only := (length_eq_of_reordered h).trans ht.only
      group := Json.get?_eq_of_fixed hnames h ht.group hkeys
      group_ne_nil := ht.group_ne_nil
      names := ht.names
      apply := ⟨rules', happly, ApplyRule.each_written_of_reordered hwritten hreordered⟩
      keys_nodup := ht.keys_nodup }

theorem SortOrder.keys_written_of_reordered {columns : List String} {order : SortOrder}
    (horder : order.Written columns (.object members)) :
    order.Written columns (.object others) := by
  cases horder with
  | keys direction keys _ only direction_eq keys_eq keys_ne_nil keys_sub =>
    obtain ⟨name, hname, hdirection⟩ := direction_eq
    have hdirection' := Json.get?_eq_of_fixed hnames h hdirection (Json.fixed_string _)
    have hkeys' := Json.get?_eq_of_fixed hnames h keys_eq (Json.fixed_texts keys)
    exact .keys direction keys others ((length_eq_of_reordered h).trans only)
      ⟨name, hname, hdirection'⟩ hkeys' keys_ne_nil keys_sub

end

theorem SortOrder.written_of_reordered {columns : List String} {order : SortOrder}
    (honce : j.NamesOnce) (hjk : j.Reordered k) (h : order.Written columns j) :
    order.Written columns k := by
  cases h with
  | key key hkey =>
    obtain rfl := Json.fixed_string key k hjk
    exact .key key hkey
  | keys direction keys members only direction_eq keys_eq keys_ne_nil keys_sub =>
    obtain ⟨others, rfl⟩ := Json.exists_of_reordered_object hjk
    exact keys_written_of_reordered honce.1 hjk
      (.keys direction keys members only direction_eq keys_eq keys_ne_nil keys_sub)

/-- An optional member of an object, and the same member after reordering. -/
theorem rel_get?_of_reordered {α : Type} {R : α → Json → Prop} {a : Option α} {name : String}
    (hR : ∀ a j k, j.NamesOnce → j.Reordered k → R a j → R a k)
    (honce : (Json.object members).NamesOnce)
    (h : (Json.object members).Reordered (.object others))
    (hrel : Option.Rel R a (Json.get? name members)) : Option.Rel R a (Json.get? name others) := by
  have hget := Json.get?_of_reordered honce.1 h name
  cases hj : Json.get? name members with
  | none =>
    rw [hj] at hrel hget
    cases hrel
    cases hk : Json.get? name others with
    | none => exact .none
    | some k =>
      rw [hk] at hget
      cases hget
  | some j =>
    obtain ⟨k, hk, hjk⟩ := Json.exists_get?_of_reordered honce.1 h hj
    rw [hj] at hrel
    cases hrel with
    | some hrel =>
      rw [hk]
      exact .some (hR _ j k (Json.namesOnce_of_get? honce.2 hj) hjk hrel)

theorem Options.written_of_reordered {transform : Option Transform} {options : Options}
    (honce : (Json.object members).NamesOnce)
    (h : (Json.object members).Reordered (.object others))
    (hoptions : options.Written subject transform members) :
    options.Written subject transform others := by
  have hcolumns := Json.fixed_texts (options.columns.map Column.key)
  rw [List.map_map] at hcolumns
  exact
    { only := forall_names_of_reordered h
        (fun name => name = "COLUMNS" ∨ name = "ORDER") hoptions.only
      columns := Json.get?_eq_of_fixed honce.1 h hoptions.columns hcolumns
      columns_ne_nil := hoptions.columns_ne_nil
      available := hoptions.available
      order := rel_get?_of_reordered (fun _ _ _ => SortOrder.written_of_reordered) honce h
        hoptions.order }

/-! ### Queries -/

namespace Query

theorem written_of_reordered {q : Query} (honce : j.NamesOnce) (hjk : j.Reordered k)
    (h : q.Written j) : q.Written k := by
  obtain ⟨members, rfl, honly, ⟨condition, hwhere, hcondition⟩, htransform, parts, hoptions,
    hwritten⟩ := h
  obtain ⟨others, rfl⟩ := Json.exists_of_reordered_object hjk
  obtain ⟨condition', hwhere', hsame⟩ := Json.exists_get?_of_reordered honce.1 hjk hwhere
  obtain ⟨_, hoptions', hreordered⟩ := Json.exists_get?_of_reordered honce.1 hjk hoptions
  obtain ⟨parts', rfl⟩ := Json.exists_of_reordered_object hreordered
  refine ⟨others, rfl, forall_names_of_reordered hjk
      (fun name => name = "WHERE" ∨ name = "OPTIONS" ∨ name = "TRANSFORMATIONS") honly,
    ⟨condition', hwhere', Filter.writtenWhole_of_reordered hcondition hsame⟩, ?_, parts',
    hoptions', ?_⟩
  · refine rel_get?_of_reordered ?_ honce hjk htransform
    rintro t _ k honce hjk ⟨entries, rfl, ht⟩
    obtain ⟨entries', rfl⟩ := Json.exists_of_reordered_object hjk
    exact ⟨entries', rfl, Transform.written_of_reordered honce.1 hjk ht⟩
  · exact Options.written_of_reordered (Json.namesOnce_of_get? honce.2 hoptions) hreordered hwritten

/-- Objects of values that are read have each name once. Of two such values that differ in nothing
but the order of members, both are refused as invalid, or both are accepted as the same query. -/
theorem ofJson_reordered :
    (∀ text j, Json.read text = .ok j → j.NamesOnce) ∧
      ∀ j k : Json, j.NamesOnce → j.Reordered k →
        (∃ q, ofJson j = .ok q ∧ ofJson k = .ok q) ∨
          ∃ fault fault', ofJson j = .error fault ∧ ofJson k = .error fault' ∧
            (Failure.query fault).kind = "invalid_request" ∧
            (Failure.query fault').kind = "invalid_request" := by
  refine ⟨fun text j => Json.namesOnce_of_read, fun j k honce hjk => ?_⟩
  -- Reordering goes both ways, so neither of the values is accepted alone.
  have hkj := Json.reordered_symm j k hjk
  have honce' := Json.namesOnce_of_reordered j k hjk honce
  cases hj : ofJson j with
  | ok q =>
    have hk := ofJson_of_written (written_of_reordered honce hjk (written_of_ofJson hj))
    exact .inl ⟨q, rfl, hk⟩
  | error fault =>
    cases hk : ofJson k with
    | ok q =>
      have hj' := ofJson_of_written (written_of_reordered honce' hkj (written_of_ofJson hk))
      cases hj.symm.trans hj'
    | error fault' => exact .inr ⟨fault, fault', rfl, rfl, rfl, rfl⟩

/-- All members of a query that groups and sorts, back to front. -/
theorem ofJson_reordered_of_grouped_query :
    ∃ q, ofJson (.object
          [("WHERE", .object [("GT", .object [("ubc_avg", .int 90)])]),
            ("OPTIONS", .object
              [("COLUMNS", .array [.string "ubc_dept", .string "n"]),
                ("ORDER", .object [("dir", .string "DOWN"), ("keys", .array [.string "n"])])]),
            ("TRANSFORMATIONS", .object
              [("GROUP", .array [.string "ubc_dept"]),
                ("APPLY", .array [.object [("n", .object [("MAX", .string "ubc_avg")])]])])]) =
        .ok q ∧
      ofJson (.object
          [("TRANSFORMATIONS", .object
              [("APPLY", .array [.object [("n", .object [("MAX", .string "ubc_avg")])]]),
                ("GROUP", .array [.string "ubc_dept"])]),
            ("OPTIONS", .object
              [("ORDER", .object [("keys", .array [.string "n"]), ("dir", .string "DOWN")]),
                ("COLUMNS", .array [.string "ubc_dept", .string "n"])]),
            ("WHERE", .object [("GT", .object [("ubc_avg", .int 90)])])]) =
        .ok q := by
  have swapped (a b : String × Json) :
      (Json.object [a, b]).Reordered (.object [b, a]) :=
    Json.reordered_of_perm (.swap b a [])
  refine (ofJson_reordered.2 _ _ ?_ ?_).resolve_right ?_
  · simp [NamesOnce, Json.NamesOnceMembers, Json.NamesOnceItems, Json.int]
  · refine ⟨_, ?_, List.reverse_perm _⟩
    refine ⟨rfl, Json.reordered_refl _, rfl, ⟨_, ?_, .swap _ _ []⟩, rfl, swapped _ _, trivial⟩
    exact ⟨rfl, Json.reordered_refl _, rfl, swapped _ _, trivial⟩
  · rintro ⟨_, _, h, -⟩
    cases h

end Query

end CampusQuery
