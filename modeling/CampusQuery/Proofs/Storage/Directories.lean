import CampusQuery.Proofs.Assignment
import CampusQuery.Storage.Directory
import Mathlib.Data.List.Nodup
/-!
Directories after a file is written or taken away.
-/

namespace CampusQuery.Storage.Directory

variable {d : Directory} {name : String}

theorem nodup_names_put (hnames : d.names.Nodup) (node : Node) : (d.put name node).names.Nodup := by
  have hkeys : (d.put name node).names = if name ∈ d.names then d.names else d.names ++ [name] :=
    keys_assign name node d
  rw [hkeys]
  split_ifs with hmem
  · exact hnames
  · rw [← List.concat_eq_append]
    exact hnames.concat hmem

theorem find?_put (d : Directory) (name : String) (node : Node) :
    (d.put name node).find? name = some node :=
  (lookup_assign name name node d).trans (if_pos rfl)

/-- In a part of a directory that is chosen by names, what stands under a chosen name stays. -/
theorem find?_filter (d : Directory) (p : String → Bool) (name : String) :
    Directory.find? (d.filter fun entry => p entry.1) name =
      if p name then d.find? name else none := by
  induction d with
  | nil => simp [find?]
  | cons entry d ih =>
    obtain ⟨key, node⟩ := entry
    unfold find? at ih ⊢
    by_cases hname : name = key
    · subst hname
      cases hp : p name
      · rw [List.filter_cons_of_neg (by simp [hp]), ih, hp]
        rfl
      · rw [List.filter_cons_of_pos (by simpa using hp), List.lookup_cons_self,
          List.lookup_cons_self]
        rfl
    · have hbeq : (name == key) = false := beq_eq_false_iff_ne.2 hname
      rw [List.lookup_cons, hbeq, List.filter_cons]
      cases p key with
      | false => exact ih
      | true =>
        rw [if_pos rfl, List.lookup_cons, hbeq]
        exact ih

/-! ### Free names -/

theorem ne_of_find?_eq_none (h : d.find? name = none) : ∀ entry ∈ d, entry.1 ≠ name :=
  fun entry hentry => (bne_iff_ne.1 (List.lookup_eq_none_iff.1 h entry hentry)).symm

/-- What has a free name goes behind the rest. -/
theorem put_of_find?_eq_none (h : d.find? name = none) (node : Node) :
    d.put name node = d ++ [(name, node)] :=
  assign_of_not_mem node (ne_of_find?_eq_none h)

end CampusQuery.Storage.Directory
