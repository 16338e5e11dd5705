import CampusQuery.Proofs.Dataset.Numbers
import CampusQuery.Proofs.Dataset.Usable
import CampusQuery.Proofs.Json.RoundTrip
/-!
Records read again.

Between a record and the record that is read from its text, only numbers can differ. So records of
a kind stay records of the kind, with their natural identifiers, and the same ones are kept.
-/

namespace CampusQuery

namespace Record

/-- The record that the text of a record is read as. -/
def reread (r : Record) : Record :=
  r.mapNumbers Double.reread

/-- The text of each number of the record is read as that number. -/
def ReadsBack (r : Record) : Prop :=
  ∀ field, ∀ x ∈ r.number? field, x.reread = x

instance (r : Record) : Decidable r.ReadsBack :=
  decidable_of_iff _ forall_number?_iff.symm

@[simp]
theorem kind_reread (r : Record) : r.reread.kind = r.kind :=
  kind_mapNumbers _ r

@[simp]
theorem naturalId_reread (r : Record) : r.reread.naturalId = r.naturalId :=
  naturalId_mapNumbers _ r

theorem reread_eq_self {r : Record} (h : r.ReadsBack) : r.reread = r :=
  mapNumbers_eq_self h

theorem map_reread_eq_self {records : List Record} (h : ∀ r ∈ records, r.ReadsBack) :
    records.map reread = records :=
  (List.map_congr_left fun r hr => reread_eq_self (h r hr)).trans (List.map_id records)

theorem finite_reread_iff {r : Record} : r.reread.Finite ↔ r.Finite := by
  simp [Finite, reread, Double.isFinite_reread]

/-- A number that is not finite is written as nothing, and read as nothing. -/
theorem reread_ofDouble (x : Double) : (Json.ofDouble x).reread = .ofDouble x.reread := by
  unfold Json.ofDouble
  rw [Double.isFinite_reread]
  split_ifs <;> rfl

/-- What is read of a written record is what is written of the record that is read. -/
theorem reread_toJson (r : Record) : r.toJson.reread = r.reread.toJson := by
  cases r <;>
    simp [toJson, reread, mapNumbers, kind, Kind.fields, cell?, Field.isNumeric, number?, text?,
      Json.reread, Json.rereadMembers, reread_ofDouble]

end Record

namespace Dataset

/-- The dataset with its records read again. -/
def reread (data : Dataset) : Dataset :=
  { data with records := data.records.map Record.reread }

@[simp]
theorem info_reread (data : Dataset) : data.reread.info = data.info :=
  congrArg (DatasetInfo.mk data.id data.kind) (List.length_map _)

/-- Which records are kept depends on their kinds and natural identifiers. -/
theorem usable_map_reread (kind : Kind) (records : List Record) :
    usable kind (records.map Record.reread) = (usable kind records).map Record.reread := by
  rw [usable_eq, usable_eq, List.filter_map, eraseDupsBy_map]
  simp [Function.comp_def]

end Dataset

end CampusQuery
