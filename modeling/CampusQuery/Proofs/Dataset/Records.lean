import CampusQuery.Dataset.Record
import CampusQuery.Proofs.Assignment
import CampusQuery.Proofs.Dataset.Numbers
import CampusQuery.Proofs.Json.Numbers
import CampusQuery.Proofs.Outcome
import Mathlib.Data.List.Perm.Subperm
/-!
Which values are records, and which record each of them is.

A value has the fields of a kind if it is an object with a member for each of them and no other, in
any order, or an array of their contents in the order of the fields. It is a record of the kind if
each content is of the type of its field, and then it is the record that has these contents.
-/

namespace CampusQuery

/-! ### Contents of fields -/

namespace Field

/-- The value is of the type of the field. -/
def Takes (f : Field) : Json → Prop
  | .string _ => f.isNumeric = false
  | .number _ => f.isNumeric = true
  | _ => False

theorem takes_iff {f : Field} {v : Json} : f.Takes v ↔
    f.isNumeric = false ∧ (∃ s, v = .string s) ∨ f.isNumeric = true ∧ ∃ n, v = .number n := by
  cases v <;> simp [Takes]

theorem nodup_keys (kind : Kind) : (kind.fields.map key).Nodup := by
  cases kind <;> decide

end Field

namespace Record

variable {r : Record} {f : Field}

/-- The record has the value in the field: its text, or the double that is nearest to its number. -/
def Holds (r : Record) (f : Field) : Json → Prop
  | .string s => r.text? f = some s
  | .number n => r.number? f = some n.toDouble
  | _ => False

theorem Holds.takes {v : Json} (h : r.Holds f v) : f.Takes v := by
  cases v with
  | string s => exact (isSome_text?_iff.1 (Option.isSome_of_eq_some h)).2
  | number n => exact (isSome_number?_iff.1 (Option.isSome_of_eq_some h)).2
  | _ => exact h

end Record

/-! ### Values with the fields of a kind -/

namespace Json

/-- The value has the fields of a kind and nothing else, and `P` holds of the contents. -/
inductive HasFields (kind : Kind) (P : Field → Json → Prop) : Json → Prop
  | object {members : List (String × Json)}
      (names : (members.map Prod.fst).Perm (kind.fields.map Field.key))
      (contents : ∀ f ∈ kind.fields, ∀ v, (f.key, v) ∈ members → P f v) :
      HasFields kind P (.object members)
  | array {items : List Json} (contents : List.Forall₂ P kind.fields items) :
      HasFields kind P (.array items)

/-- The value has just the fields of a kind, with contents of their types. -/
def IsRecordOf (kind : Kind) (j : Json) : Prop :=
  j.HasFields kind Field.Takes

/-- The value is a record, of whichever kind. -/
def IsRecord (j : Json) : Prop :=
  j.IsRecordOf .sections ∨ j.IsRecordOf .rooms

variable {P Q : Field → Json → Prop} {j : Json}

/-- The content of each field is a part of the value. -/
theorem HasFields.exists_content {kind : Kind} (h : j.HasFields kind P) (hj : j.Readable)
    {f : Field} (hf : f ∈ kind.fields) : ∃ v, v.Readable ∧ P f v := by
  cases h with
  | object names contents =>
    obtain ⟨⟨key, v⟩, hv, rfl⟩ := List.mem_map.1 (names.mem_iff.2 (List.mem_map_of_mem hf))
    exact ⟨v, readableMembers_iff.1 hj _ hv, contents f hf v hv⟩
  | array contents =>
    obtain ⟨v, hv, hcontent⟩ := Outcome.exists_of_forall₂_of_mem contents.flip hf
    exact ⟨v, readableItems_iff.1 hj v hv, hcontent⟩

/-- The kinds differ in the number of fields. -/
theorem HasFields.not_rooms (h : j.HasFields .sections P) : ¬j.HasFields .rooms Q := by
  intro hrooms
  cases h with
  | object names =>
    cases hrooms with
    | object names' => exact absurd (names.symm.trans names').length_eq (by decide)
  | array contents =>
    cases hrooms with
    | array contents' =>
      exact absurd (contents.length_eq.trans contents'.length_eq.symm) (by decide)

end Json

namespace Record

open Json (HasFields IsRecordOf)

variable {kind : Kind} {values : List Json} {j : Json} {r : Record}

/-- The record is what the value says. -/
def Written (r : Record) (j : Json) : Prop :=
  j.HasFields r.kind r.Holds

theorem Written.ne_null {members : List (String × Json)} (h : r.Written (.object members))
    {m : String × Json} (hm : m ∈ members) : m.2 ≠ .null := by
  intro hnull
  cases h with
  | object names contents =>
    obtain ⟨f, hf, hkey⟩ := List.mem_map.1 (names.mem_iff.1 (List.mem_map_of_mem hm))
    exact contents f hf .null (by rwa [hkey, ← hnull])

/-- As many entries as there are names, with an entry for each name, have just these names. -/
theorem names_perm_of_lookup {names : List String} (hnodup : names.Nodup)
    {entries : List (String × Json)} (hlength : entries.length = names.length)
    (hall : ∀ name ∈ names, ∃ v, entries.lookup name = some v) :
    (entries.map Prod.fst).Perm names := by
  have hsubset : names ⊆ entries.map Prod.fst := by
    intro name hname
    obtain ⟨v, hv⟩ := hall name hname
    exact List.mem_map_of_mem (mem_of_lookup hv)
  have hsubperm := List.subperm_of_subset hnodup hsubset
  exact (hsubperm.perm_of_length_le (by simp [hlength])).symm

/-- The contents are found in the order of the fields. -/
theorem hasFields_iff {P : Field → Json → Prop} :
    j.HasFields kind P ↔ ∃ values, values? kind j = some values ∧
      List.Forall₂ P kind.fields values := by
  constructor
  · intro h
    cases h with
    | array contents => exact ⟨_, rfl, contents⟩
    | @object members names contents =>
      have hnodup := names.nodup_iff.2 (Field.nodup_keys kind)
      have hfound : ∀ f ∈ kind.fields, ∃ v, Json.get? f.key members = some v ∧ P f v := by
        intro f hf
        obtain ⟨⟨key, v⟩, hv, rfl⟩ :=
          List.mem_map.1 (names.mem_iff.2 (List.mem_map_of_mem hf))
        exact ⟨v, lookup_of_mem hnodup hv, contents f hf v hv⟩
      choose! content hget hcontent using hfound
      have hlength : members.length = kind.fields.length := by
        simpa using names.length_eq
      refine ⟨kind.fields.map content, ?_, ?_⟩
      · rw [values?, if_pos hlength, Outcome.mapM_eq_some_iff, List.forall₂_map_right_iff,
          List.forall₂_same]
        exact hget
      · rw [List.forall₂_map_right_iff, List.forall₂_same]
        exact hcontent
  · rintro ⟨values, hvalues, hcontents⟩
    unfold values? at hvalues
    split at hvalues
    · cases hvalues
      exact .array hcontents
    · next members =>
      split_ifs at hvalues with hlength
      rw [Outcome.mapM_eq_some_iff] at hvalues
      have hfound : ∀ f ∈ kind.fields, ∃ v, Json.get? f.key members = some v ∧ P f v := by
        intro f hf
        have hboth := List.Forall₂.mp (fun _ _ => And.intro) hvalues hcontents
        obtain ⟨v, -, hv⟩ := Outcome.exists_of_forall₂_of_mem hboth.flip hf
        exact ⟨v, hv⟩
      have hnames : (members.map Prod.fst).Perm (kind.fields.map Field.key) := by
        apply names_perm_of_lookup (Field.nodup_keys kind) (by rw [List.length_map, hlength])
        intro name hname
        obtain ⟨f, hf, rfl⟩ := List.mem_map.1 hname
        exact (hfound f hf).imp fun _ => And.left
      refine .object hnames fun f hf v hv => ?_
      obtain ⟨v', hget, hcontent⟩ := hfound f hf
      have hv := lookup_of_mem (hnames.nodup_iff.2 (Field.nodup_keys kind)) hv
      obtain rfl : v = v' := Option.some.inj (hv.symm.trans hget)
      exact hcontent
    · cases hvalues

/-! ### Records of contents -/

/-- The record of contents in the order of the fields. -/
def ofValues? : Kind → List Json → Option Record
  | .sections => sectionOf?
  | .rooms => roomOf?

theorem forall₂_takes_sections : List.Forall₂ Field.Takes Kind.sections.fields values ↔
    ∃ dept id title instructor uuid year avg pass fail audit,
      values = [.string dept, .string id, .string title, .string instructor, .string uuid,
        .number year, .number avg, .number pass, .number fail, .number audit] := by
  simp [Kind.fields, List.forall₂_cons_left_iff, Field.takes_iff, Field.isNumeric]

theorem forall₂_takes_rooms : List.Forall₂ Field.Takes Kind.rooms.fields values ↔
    ∃ fullname shortname number name address type furniture href lat lon seats,
      values = [.string fullname, .string shortname, .string number, .string name,
        .string address, .string type, .string furniture, .string href, .number lat, .number lon,
        .number seats] := by
  simp [Kind.fields, List.forall₂_cons_left_iff, Field.takes_iff, Field.isNumeric]

/-- A record is made of the contents that it has. -/
theorem ofValues?_eq_some_iff :
    ofValues? kind values = some r ↔ r.kind = kind ∧ List.Forall₂ r.Holds kind.fields values := by
  constructor
  · intro h
    cases kind with
    | sections =>
      change sectionOf? values = some r at h
      unfold sectionOf? at h
      split at h
      · cases h
        simp [Kind.fields, Holds, Record.kind, text?, number?]
      · cases h
    | rooms =>
      change roomOf? values = some r at h
      unfold roomOf? at h
      split at h
      · cases h
        simp [Kind.fields, Holds, Record.kind, text?, number?]
      · cases h
  · rintro ⟨rfl, h⟩
    have htakes := h.imp fun _ _ => Holds.takes
    cases r with
    | ofSection s =>
      obtain ⟨dept, id, title, instructor, uuid, year, avg, pass, fail, audit, rfl⟩ :=
        forall₂_takes_sections.1 htakes
      obtain ⟨⟩ := s
      simpa [Kind.fields, Holds, Record.kind, text?, number?, ofValues?, sectionOf?, eq_comm]
        using h
    | ofRoom r =>
      obtain ⟨fullname, shortname, number, name, address, type, furniture, href, lat, lon, seats,
        rfl⟩ := forall₂_takes_rooms.1 htakes
      obtain ⟨⟩ := r
      simpa [Kind.fields, Holds, Record.kind, text?, number?, ofValues?, roomOf?, eq_comm]
        using h

/-- Any contents of the right types make a record. -/
theorem exists_ofValues?_iff :
    (∃ r, ofValues? kind values = some r) ↔ List.Forall₂ Field.Takes kind.fields values := by
  constructor
  · rintro ⟨r, h⟩
    exact (ofValues?_eq_some_iff.1 h).2.imp fun _ _ => Holds.takes
  · intro h
    cases kind with
    | sections =>
      obtain ⟨_, _, _, _, _, _, _, _, _, _, rfl⟩ := forall₂_takes_sections.1 h
      exact ⟨_, rfl⟩
    | rooms =>
      obtain ⟨_, _, _, _, _, _, _, _, _, _, _, rfl⟩ := forall₂_takes_rooms.1 h
      exact ⟨_, rfl⟩

/-! ### Reading a value as a record -/

/-- The record of a kind that a value writes. -/
def ofJsonAs? (kind : Kind) (j : Json) : Option Record :=
  (values? kind j).bind (ofValues? kind)

theorem ofJsonAs?_eq_some_iff : ofJsonAs? kind j = some r ↔ r.kind = kind ∧ r.Written j := by
  rw [ofJsonAs?, Option.bind_eq_some_iff]
  constructor
  · rintro ⟨values, hvalues, h⟩
    obtain ⟨rfl, hholds⟩ := ofValues?_eq_some_iff.1 h
    exact ⟨rfl, hasFields_iff.2 ⟨values, hvalues, hholds⟩⟩
  · rintro ⟨rfl, h⟩
    obtain ⟨values, hvalues, hholds⟩ := hasFields_iff.1 h
    exact ⟨values, hvalues, ofValues?_eq_some_iff.2 ⟨rfl, hholds⟩⟩

theorem exists_ofJsonAs?_iff : (∃ r, ofJsonAs? kind j = some r) ↔ j.IsRecordOf kind := by
  rw [IsRecordOf, hasFields_iff]
  simp only [ofJsonAs?, Option.bind_eq_some_iff, ← exists_ofValues?_iff]
  constructor
  · rintro ⟨r, values, hvalues, h⟩
    exact ⟨values, hvalues, r, h⟩
  · rintro ⟨values, hvalues, r, h⟩
    exact ⟨r, values, hvalues, h⟩

/-- No value is a record of both kinds. -/
theorem ofJsonAs?_sections_or_rooms (j : Json) :
    ofJsonAs? .sections j = none ∨ ofJsonAs? .rooms j = none := by
  cases hsection : ofJsonAs? .sections j with
  | none => exact .inl rfl
  | some s =>
    refine .inr (Option.eq_none_iff_forall_ne_some.2 fun r hroom => ?_)
    exact (exists_ofJsonAs?_iff.1 ⟨s, hsection⟩).not_rooms (exists_ofJsonAs?_iff.1 ⟨r, hroom⟩)

theorem ofJson?_eq (j : Json) : ofJson? j = (ofJsonAs? .sections j).or (ofJsonAs? .rooms j) :=
  rfl

/-- A value is read as the record that it writes, whichever the kind. -/
theorem ofJson?_eq_some_iff : ofJson? j = some r ↔ r.Written j := by
  have hsection : ofJsonAs? .sections j = some r ↔ r.kind = .sections ∧ r.Written j :=
    ofJsonAs?_eq_some_iff
  have hroom : ofJsonAs? .rooms j = some r ↔ r.kind = .rooms ∧ r.Written j :=
    ofJsonAs?_eq_some_iff
  rw [ofJson?_eq, Option.or_eq_some_iff, hsection, hroom]
  constructor
  · rintro (⟨-, h⟩ | ⟨-, -, h⟩)
    · exact h
    · exact h
  · intro h
    cases hkind : r.kind with
    | sections => exact .inl ⟨rfl, h⟩
    | rooms =>
      have hnone := (ofJsonAs?_sections_or_rooms j).resolve_right
        (by simp [hroom.2 ⟨hkind, h⟩])
      exact .inr ⟨hnone, rfl, h⟩

/-- A record that is read has no other numbers than the value it is read from. -/
theorem finite_of_ofJson? (hj : j.Readable) (h : ofJson? j = some r) : r.Finite := by
  intro f x hx
  have hnumber := isSome_number?_iff.1 (Option.isSome_of_eq_some hx)
  have hf : f ∈ r.kind.fields := (Field.mem_fields_iff f _).2 hnumber.1
  obtain ⟨v, hv, hholds⟩ := (ofJson?_eq_some_iff.1 h).exists_content hj hf
  cases v with
  | number n =>
    obtain rfl : x = n.toDouble := Option.some.inj (hx.symm.trans hholds)
    exact Number.Readable.isFinite_toDouble hv
  | string s => exact absurd (hnumber.2.symm.trans hholds.takes) (by decide)
  | _ => exact hholds.elim

theorem isSome_ofJson?_iff : (ofJson? j).isSome = true ↔ j.IsRecord := by
  rw [ofJson?_eq, Option.isSome_or, Bool.or_eq_true, Option.isSome_iff_exists,
    Option.isSome_iff_exists, exists_ofJsonAs?_iff, exists_ofJsonAs?_iff, Json.IsRecord]

end Record

instance Json.decidableIsRecord : DecidablePred IsRecord :=
  fun _ => decidable_of_iff _ Record.isSome_ofJson?_iff

end CampusQuery
