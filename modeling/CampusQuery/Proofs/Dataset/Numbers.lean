import CampusQuery.Dataset.Record
/-!
The numbers of a record.

The fields of a record are those of its kind: in each there is a number or a text, as the field has
it. So what is said of all numbers of a record can be checked field by field.
-/

namespace CampusQuery.Record

variable {r : Record} {f : Field}

/-- The records of a kind have a number in each numeric field of the kind. -/
theorem isSome_number?_iff : (r.number? f).isSome = true ↔
    f.kind = r.kind ∧ f.isNumeric = true := by
  have hsome : (r.number? f).isSome = (decide (f.kind = r.kind) && f.isNumeric) := by
    cases r <;> cases f <;> rfl
  simp [hsome]

/-- The records of a kind have a text in each other field of the kind. -/
theorem isSome_text?_iff : (r.text? f).isSome = true ↔
    f.kind = r.kind ∧ f.isNumeric = false := by
  have hsome : (r.text? f).isSome = (decide (f.kind = r.kind) && !f.isNumeric) := by
    cases r <;> cases f <;> rfl
  simp [hsome]

theorem forall_number?_iff {P : Double → Prop} :
    (∀ f, ∀ x ∈ r.number? f, P x) ↔ ∀ f ∈ r.kind.fields, ∀ x ∈ r.number? f, P x := by
  refine ⟨fun h f _ => h f, fun h f x hx => ?_⟩
  have hkind := (isSome_number?_iff.1 (Option.isSome_of_eq_some hx)).1
  exact h f ((Field.mem_fields_iff f r.kind).2 hkind) x hx

/-- All numbers of the record are finite. -/
def Finite (r : Record) : Prop :=
  ∀ field, ∀ x ∈ r.number? field, x.isFinite = true

instance (r : Record) : Decidable r.Finite :=
  decidable_of_iff _ forall_number?_iff.symm

/-! ### Other numbers in their places -/

/-- The record with another number for each. -/
def mapNumbers (g : Double → Double) : Record → Record
  | ofSection s =>
    .ofSection { s with
      year := g s.year
      avg := g s.avg
      pass := g s.pass
      fail := g s.fail
      audit := g s.audit }
  | ofRoom r =>
    .ofRoom { r with
      lat := g r.lat
      lon := g r.lon
      seats := g r.seats }

variable (g : Double → Double) (r : Record) (f : Field)

@[simp]
theorem kind_mapNumbers : (r.mapNumbers g).kind = r.kind := by
  cases r <;> rfl

@[simp]
theorem naturalId_mapNumbers : (r.mapNumbers g).naturalId = r.naturalId := by
  cases r <;> rfl

@[simp]
theorem number?_mapNumbers : (r.mapNumbers g).number? f = (r.number? f).map g := by
  cases r <;> cases f <;> rfl

theorem mapNumbers_eq_self {g : Double → Double} {r : Record}
    (h : ∀ f, ∀ x ∈ r.number? f, g x = x) : r.mapNumbers g = r := by
  cases r with
  | ofSection s =>
    simp [mapNumbers, h .year s.year rfl, h .avg s.avg rfl, h .pass s.pass rfl, h .fail s.fail rfl,
      h .audit s.audit rfl]
  | ofRoom r => simp [mapNumbers, h .lat r.lat rfl, h .lon r.lon rfl, h .seats r.seats rfl]

end CampusQuery.Record
