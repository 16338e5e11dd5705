import CampusQuery.Proofs.Query.Columns
import CampusQuery.Proofs.Query.Conditions
/-!
The walk over a value accepts what the grammar lists, and yields the query that is written.
-/

namespace CampusQuery

namespace Check

variable {subject : Subject}

theorem found_iff_available {transform : Option Transform}
    (htransform : ∀ t ∈ transform, ∃ entries, t.Written subject entries) {key : String}
    {c : Column} :
    Found subject key c transform ↔ key = c.key ∧ c.Available subject transform := by
  cases transform with
  | none => exact Iff.rfl
  | some t =>
    obtain ⟨entries, ht⟩ := htransform t rfl
    exact ht.column?_eq_some_iff

/-- What the parts of a query have to be. -/
structure PartsWritten (subject : Subject) (where_ options_ : Json) (transform_ : Option Json)
    (parts : Filter × Option Transform × Options) : Prop where
  condition : parts.1.WrittenWhole subject where_
  transform : Option.Rel (fun t j => ∃ entries, j = .object entries ∧ t.Written subject entries)
    parts.2.1 transform_
  options : ∃ entries, options_ = .object entries ∧ parts.2.2.Written subject parts.2.1 entries

/-- The parts of a query, one after the other. -/
def parts (where_ options_ : Json) (transform_ : Option Json) :
    Check (Filter × Option Transform × Options) := do
  let filter ← condition where_
  let transform ← transform_.mapM transformations
  let options ← options transform options_
  return (filter, transform, options)

theorem parts_realizes (where_ options_ : Json) (transform_ : Option Json) :
    Realizes subject (parts where_ options_ transform_)
      (PartsWritten subject where_ options_ transform_) := by
  apply ((condition_realizes where_).bind fun filter => (Realizes.option_mapM fun j _ =>
    transformations_realizes j).bind fun transform => (options_realizes transform options_).bind
      fun options => Realizes.pure (filter, transform, options)).of_iff
  intro a
  have htransform {t : Option Transform} (h : Option.Rel (fun t j => ∃ entries,
      j = .object entries ∧ t.Written subject entries) t transform_) :
      ∀ t' ∈ t, ∃ entries, t'.Written subject entries := by
    intro t' ht'
    cases h with
    | none => cases ht'
    | some h =>
      cases ht'
      obtain ⟨entries, -, hwritten⟩ := h
      exact ⟨entries, hwritten⟩
  have htexts (columns : List Column) :
      (columns.map Column.key).map Json.string = columns.map fun c => .string c.key := by
    rw [List.map_map]
    rfl
  constructor
  · intro h
    rcases h with ⟨filter, hfilter, transform, ht, options, ⟨entries, rfl, honly, keys, hkeys, hne,
      hfound, horder⟩, rfl⟩
    simp only [found_iff_available (htransform ht), forall₂_eq_and_iff] at hfound
    obtain ⟨rfl, havailable⟩ := hfound
    rw [htexts] at hkeys
    exact ⟨hfilter, ht, entries, rfl, honly, hkeys, by simpa using hne, havailable, horder⟩
  · obtain ⟨filter, transform, options⟩ := a
    intro h
    rcases h with ⟨hfilter, ht, entries, rfl, honly, hkeys, hne, havailable, horder⟩
    rw [← htexts] at hkeys
    refine ⟨filter, hfilter, transform, ht, options, ⟨entries, rfl, honly, _, hkeys, ?_, ?_,
      horder⟩, rfl⟩
    · simpa using hne
    · simp only [found_iff_available (htransform ht)]
      exact forall₂_eq_and_iff.2 ⟨rfl, havailable⟩

/-- Some key of a field has settled the subject: otherwise the parts would be written for the
subjects of both kinds. -/
theorem parts_settle {where_ options_ : Json} {transform_ : Option Json}
    {a : Filter × Option Transform × Options} {settled : Option Subject}
    (h : parts where_ options_ transform_ none = .ok (a, settled)) :
    ∃ subject, settled = some subject := by
  rw [← Option.ne_none_iff_exists']
  rintro rfl
  have hwritten (subject : Subject) : PartsWritten subject where_ options_ transform_ a :=
    ((parts_realizes where_ options_ transform_ none a).1 ⟨none, h, by simp [Subject.Fits]⟩).2
  have hkind {key : String} {field : Field}
      (hnames : ∀ subject : Subject, subject.Names key field) : False := by
    have hsections := (hnames ⟨"", .sections⟩).kind_eq
    have hrooms := (hnames ⟨"", .rooms⟩).kind_eq
    cases hsections.symm.trans hrooms
  obtain ⟨filter, transform, options⟩ := a
  cases transform with
  | none =>
    obtain ⟨c, hc⟩ := List.exists_mem_of_ne_nil _
      (hwritten ⟨"", .sections⟩).options.choose_spec.2.columns_ne_nil
    have havailable (subject : Subject) : c.Available subject none :=
      (hwritten subject).options.choose_spec.2.available c hc
    cases c with
    | field key f => exact hkind havailable
    | applied key => exact havailable ⟨"", .sections⟩
  | some t =>
    have ht (subject : Subject) : ∃ entries, t.Written subject entries := by
      have hrel := (hwritten subject).transform
      cases transform_ with
      | none => cases hrel
      | some j =>
        obtain ⟨entries, -, hentries⟩ := Option.rel_some_some.1 hrel
        exact ⟨entries, hentries⟩
    obtain ⟨g, hg⟩ := List.exists_mem_of_ne_nil _ (ht ⟨"", .sections⟩).choose_spec.group_ne_nil
    exact hkind fun subject => (ht subject).choose_spec.names g hg

end Check

namespace Check

/-- The query of the parts, about the subject that they have settled. -/
def assembled (a : Filter × Option Transform × Options) : Check Query := do
  let some subject ← get | throw .noDataset
  return ⟨subject.dataset, subject.kind, a.1, a.2.1, a.2.2⟩

theorem assembled_eq_ok_iff {a : Filter × Option Transform × Options}
    {settled settled' : Option Subject} {q : Query} :
    assembled a settled = .ok (q, settled') ↔
      settled' = settled ∧ settled = some ⟨q.dataset, q.kind⟩ ∧
        a = (q.filter, q.transform, q.options) := by
  unfold assembled
  rw [get_bind_apply]
  cases settled with
  | none =>
    constructor
    · intro h
      cases h
    · intro h
      cases h.2.1
  | some subject =>
    constructor
    · rintro ⟨⟩
      exact ⟨rfl, rfl, rfl⟩
    · intro h
      rcases h with ⟨rfl, heq, rfl⟩
      obtain rfl := Option.some.inj heq
      rfl

theorem foreign_eq_none_iff {entries : List (String × Json)} :
    (entries.find? fun x => match x with
      | (key, _) => ! ["WHERE", "OPTIONS", "TRANSFORMATIONS"].contains key) = none ↔
      ∀ m ∈ entries, m.1 = "WHERE" ∨ m.1 = "OPTIONS" ∨ m.1 = "TRANSFORMATIONS" := by
  rw [List.find?_eq_none]
  refine forall₂_congr fun m _ => ?_
  simp only [List.contains_eq_mem, List.mem_cons, List.not_mem_nil, or_false]
  grind

theorem query_object_eq {entries : List (String × Json)} {where_ options_ : Json}
    (honly : ∀ m ∈ entries, m.1 = "WHERE" ∨ m.1 = "OPTIONS" ∨ m.1 = "TRANSFORMATIONS")
    (hwhere : Json.get? "WHERE" entries = some where_)
    (hoptions : Json.get? "OPTIONS" entries = some options_) :
    query (.object entries) =
      parts where_ options_ (Json.get? "TRANSFORMATIONS" entries) >>= assembled := by
  simp only [query, members, pure_bind, foreign_eq_none_iff.2 honly, hwhere, hoptions, parts,
    bind_assoc]
  rfl

/-- Either the members of a query are those that there have to be, or one of them is at fault. -/
theorem query_object_cases (entries : List (String × Json)) :
    (∃ fault, fault ≠ .noDataset ∧ query (.object entries) = throw fault) ∨
      (∀ m ∈ entries, m.1 = "WHERE" ∨ m.1 = "OPTIONS" ∨ m.1 = "TRANSFORMATIONS") ∧
        ∃ where_ options_, Json.get? "WHERE" entries = some where_ ∧
          Json.get? "OPTIONS" entries = some options_ := by
  cases hforeign : entries.find? fun x => match x with
      | (key, _) => ! ["WHERE", "OPTIONS", "TRANSFORMATIONS"].contains key with
  | some m =>
    simp only [query, members, pure_bind, hforeign]
    exact .inl ⟨.unexpectedMember m.1, by simp, rfl⟩
  | none =>
    have honly := foreign_eq_none_iff.1 hforeign
    cases hwhere : Json.get? "WHERE" entries with
    | none =>
      simp only [query, members, pure_bind, hforeign, hwhere]
      exact .inl ⟨.missing .condition, by simp, rfl⟩
    | some where_ =>
      cases hoptions : Json.get? "OPTIONS" entries with
      | none =>
        simp only [query, members, pure_bind, hforeign, hwhere, hoptions]
        exact .inl ⟨.missing .options, by simp, rfl⟩
      | some options_ => exact .inr ⟨honly, where_, options_, rfl, rfl⟩

theorem query_object_eq_ok_iff {entries : List (String × Json)} {settled : Option Subject}
    {q : Query} :
    query (.object entries) none = .ok (q, settled) ↔
      (∀ m ∈ entries, m.1 = "WHERE" ∨ m.1 = "OPTIONS" ∨ m.1 = "TRANSFORMATIONS") ∧
        ∃ where_ options_, Json.get? "WHERE" entries = some where_ ∧
          Json.get? "OPTIONS" entries = some options_ ∧ settled = some ⟨q.dataset, q.kind⟩ ∧
          parts where_ options_ (Json.get? "TRANSFORMATIONS" entries) none =
            .ok ((q.filter, q.transform, q.options), settled) := by
  constructor
  · intro h
    rcases query_object_cases entries with ⟨fault, -, hfault⟩ |
      ⟨honly, where_, options_, hwhere, hoptions⟩
    · rw [hfault] at h
      cases h
    · rw [query_object_eq honly hwhere hoptions] at h
      obtain ⟨a, middle, hparts, hassembled⟩ := bind_eq_ok_iff.1 h
      obtain ⟨rfl, hsettled, rfl⟩ := assembled_eq_ok_iff.1 hassembled
      exact ⟨honly, where_, options_, hwhere, hoptions, hsettled, hparts⟩
  · intro h
    rcases h with ⟨honly, where_, options_, hwhere, hoptions, hsettled, hparts⟩
    rw [query_object_eq honly hwhere hoptions]
    exact bind_eq_ok_iff.2 ⟨_, settled, hparts, assembled_eq_ok_iff.2 ⟨rfl, hsettled, rfl⟩⟩

theorem run'_eq_ok_iff {α : Type} {m : Check α} {settled : Option Subject} {a : α} :
    m.run' settled = .ok a ↔ ∃ settled', m settled = .ok (a, settled') := by
  change (m settled).map Prod.fst = .ok a ↔ _
  cases m settled with
  | error fault => simp [Except.map]
  | ok p => simp [Except.map, Prod.ext_iff]

end Check

namespace Query

/-- Nothing is accepted that the grammar does not list. -/
theorem written_of_ofJson {j : Json} {q : Query} (h : ofJson j = .ok q) : q.Written j := by
  unfold ofJson at h
  rw [Check.run'_eq_ok_iff] at h
  obtain ⟨settled, h⟩ := h
  cases j with
  | object entries =>
    obtain ⟨honly, where_, options_, hwhere, hoptions, rfl, hparts⟩ :=
      Check.query_object_eq_ok_iff.1 h
    have hwritten : Check.PartsWritten ⟨q.dataset, q.kind⟩ where_ options_ _ _ :=
      ((Check.parts_realizes where_ options_ _ none _).1 ⟨_, hparts, by simp [Subject.Fits]⟩).2
    obtain ⟨hcondition, htransform, members, rfl, hwritten⟩ := hwritten
    exact ⟨entries, rfl, honly, ⟨where_, hwhere, hcondition⟩, htransform, members, hoptions,
      hwritten⟩
  | _ => cases h

/-- All that the grammar lists is accepted. -/
theorem ofJson_of_written {j : Json} {q : Query} (h : q.Written j) : ofJson j = .ok q := by
  obtain ⟨entries, rfl, honly, ⟨where_, hwhere, hcondition⟩, htransform, members, hoptions,
    hwritten⟩ := h
  unfold ofJson
  rw [Check.run'_eq_ok_iff]
  simp only [Check.query_object_eq_ok_iff]
  have hparts : Check.PartsWritten ⟨q.dataset, q.kind⟩ where_ (.object members)
      (Json.get? "TRANSFORMATIONS" entries) (q.filter, q.transform, q.options) :=
    ⟨hcondition, htransform, members, rfl, hwritten⟩
  obtain ⟨settled, hok, hfits⟩ := (Check.parts_realizes where_ (.object members)
    (Json.get? "TRANSFORMATIONS" entries) none _).2 ⟨by simp [Subject.Fits], hparts⟩
  obtain ⟨other, rfl⟩ := Check.parts_settle hok
  obtain rfl := hfits other rfl
  exact ⟨_, honly, where_, _, hwhere, hoptions, rfl, hok⟩

/-- The accepted values are those that the grammar lists, and each yields the query that it
writes. -/
theorem ofJson_eq_ok_iff (j : Json) (q : Query) : ofJson j = .ok q ↔ q.Written j :=
  ⟨written_of_ofJson, ofJson_of_written⟩

end Query

end CampusQuery
