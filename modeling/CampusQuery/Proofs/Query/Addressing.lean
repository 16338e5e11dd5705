import CampusQuery.Proofs.Query.Faults
import CampusQuery.Proofs.Query.OneKey
/-!
Which datasets queries are about.

The rule for names of datasets and the rule for keys of fields admit the same names: no query is
accepted about another name, and whatever has the shape of a query with one key is accepted as soon
as the key starts with an admitted name.
-/

namespace CampusQuery

theorem Dataset.checkId_eq_ok_iff {id : String} :
    Dataset.checkId id = .ok () ↔ Text.allBlank id = false ∧ delimiter ∉ id.toList := by
  unfold Dataset.checkId
  split_ifs <;> simp_all

/-- A subject has keys if its dataset can be added, and then it has one for each field. -/
theorem Subject.names_iff {subject : Subject} {key : String} {field : Field} :
    subject.Names key field ↔ key = subject.dataset ++ "_" ++ field.key ∧
      field.kind = subject.kind ∧ Dataset.checkId subject.dataset = .ok () := by
  rw [Dataset.checkId_eq_ok_iff]
  constructor
  · exact fun h => ⟨h.key_eq, h.kind_eq, h.not_blank, h.no_delimiter⟩
  · rintro ⟨hkey, hkind, hblank, hdelimiter⟩
    exact ⟨hkey, hkind, hblank, hdelimiter⟩

namespace Query

/-- There is a key of the subject in every query: among the columns, or among the keys that a
grouping has. -/
theorem Written.exists_names {q : Query} {j : Json} (h : q.Written j) :
    ∃ key, ∃ f ∈ q.fields, Subject.Names ⟨q.dataset, q.kind⟩ key f := by
  obtain ⟨members, rfl, -, -, htransform, parts, -, hoptions⟩ := h
  cases ht : q.transform with
  | none =>
    obtain ⟨c, hc⟩ := List.exists_mem_of_ne_nil _ hoptions.columns_ne_nil
    have havailable := hoptions.available c hc
    rw [ht] at havailable
    cases c with
    | field key f =>
      have hf : f ∈ q.options.columns.filterMap Column.field? := List.mem_filterMap.2 ⟨_, hc, rfl⟩
      exact ⟨key, f, List.mem_append_right _ hf, havailable⟩
    | applied key => cases havailable
  | some t =>
    rw [ht] at htransform
    generalize Json.get? "TRANSFORMATIONS" members = o at htransform
    cases htransform with
    | some h =>
      obtain ⟨entries, -, hwritten⟩ := h
      obtain ⟨g, hg⟩ := List.exists_mem_of_ne_nil _ hwritten.group_ne_nil
      refine ⟨g.key, g.field, ?_, hwritten.names g hg⟩
      simp only [fields, ht, Option.elim_some, Transform.fields, List.mem_append]
      exact .inl (.inr (.inl (List.mem_map_of_mem hg)))

theorem checkId_of_ofJson {j : Json} {q : Query} (h : ofJson j = .ok q) :
    Dataset.checkId q.dataset = .ok () := by
  obtain ⟨key, f, -, hnames⟩ := (written_of_ofJson h).exists_names
  exact (Subject.names_iff.1 hnames).2.2

variable {field : Field} {j : Json}

theorem ofJson_of_oneKey {id : String} (hid : Dataset.checkId id = .ok ())
    (h : OneKey (id ++ "_" ++ field.key) field j) :
    ∃ q, ofJson j = .ok q ∧ q.dataset = id ∧ q.kind = field.kind ∧
      ∀ g, g ∈ q.fields ↔ g = field := by
  have hnames : Subject.Names ⟨id, field.kind⟩ (id ++ "_" ++ field.key) field :=
    Subject.names_iff.2 ⟨rfl, rfl, hid⟩
  obtain ⟨q, hwritten, hdataset, hkind, hfields⟩ := h.exists_written hnames
  refine ⟨q, ofJson_of_written hwritten, hdataset, hkind, fun g => ⟨hfields g, ?_⟩⟩
  rintro rfl
  obtain ⟨_, f, hf, -⟩ := hwritten.exists_names
  exact hfields f hf ▸ hf

/-- Queries are about the datasets that can be added. Every accepted one is about an admitted name,
and none is refused for want of a name. For each name and field, the queries about that name which
make use of that field only are those whose only key is the one of the field, just if the name is
admitted; and there are such values. -/
theorem ofJson_addresses :
    (∀ j q, ofJson j = .ok q → Dataset.checkId q.dataset = .ok ()) ∧
      (∀ j fault, ofJson j = .error fault → fault.message ≠ "query references no dataset") ∧
      ∀ (id : String) (field : Field),
        OneKey (id ++ "_" ++ field.key) field (ofKey (id ++ "_" ++ field.key)) ∧
          ∀ j, (∃ q, ofJson j = .ok q ∧ q.dataset = id ∧ q.kind = field.kind ∧
              ∀ g, g ∈ q.fields ↔ g = field) ↔
            Dataset.checkId id = .ok () ∧ OneKey (id ++ "_" ++ field.key) field j := by
  refine ⟨fun j q => checkId_of_ofJson, fun j fault h hmessage => ?_, fun id field =>
    ⟨oneKey_ofKey _ field, fun j => ⟨?_, fun h => ofJson_of_oneKey h.1 h.2⟩⟩⟩
  · rw [QueryFault.eq_noDataset_of_message hmessage] at h
    exact ofJson_ne_noDataset j h
  · rintro ⟨q, hq, rfl, -, hfields⟩
    exact ⟨checkId_of_ofJson hq, oneKey_of_written (written_of_ofJson hq) fun g => (hfields g).1⟩

/-- A name with a blank and an asterisk, in a query that groups and counts. -/
theorem ofJson_addresses_of_counted_groups :
    ∃ q, ofJson (.object
        [("WHERE", .object [("NOT", .object [("LT", .object [("ubc *_avg", .int 50)])])]),
          ("OPTIONS", .object
            [("COLUMNS", .array [.string "n", .string "ubc *_avg"]), ("ORDER", .string "n")]),
          ("TRANSFORMATIONS", .object
            [("GROUP", .array [.string "ubc *_avg"]),
              ("APPLY", .array [.object [("n", .object [("COUNT", .string "ubc *_avg")])]])])]) =
        .ok q ∧ q.dataset = "ubc *" ∧ q.kind = .sections ∧ ∀ g, g ∈ q.fields ↔ g = .avg := by
  have hcondition : Filter.OneKey "ubc *_avg" .avg
      (.object [("NOT", .object [("LT", .object [("ubc *_avg", .int 50)])])]) :=
    .not _ (.compare .lt (.integer 50) rfl)
  have htransform : Transform.OneKey "ubc *_avg" .avg ["n"]
      [("GROUP", .array [.string "ubc *_avg"]),
        ("APPLY", .array [.object [("n", .object [("COUNT", .string "ubc *_avg")])]])] :=
    ⟨rfl, ⟨0, rfl⟩, ⟨_, rfl, .cons ⟨.count, nofun, rfl⟩ .nil⟩, by decide, by decide⟩
  have hoptions : Options.OneKey ["ubc *_avg", "n"]
      [("COLUMNS", .array [.string "n", .string "ubc *_avg"]), ("ORDER", .string "n")] := by
    refine ⟨by simp, ["n", "ubc *_avg"], by simp, by simp, rfl, ?_⟩
    rintro _ ⟨⟩
    exact ⟨_, .key "n" (by simp)⟩
  refine ((ofJson_addresses.2.2 "ubc *" .avg).2 _).2 ⟨rfl, ?_⟩
  exact ⟨_, rfl, by simp, ⟨_, rfl, .inr hcondition⟩, _, rfl,
    .inr ⟨_, ["n"], rfl, htransform, hoptions⟩⟩

end Query

end CampusQuery
