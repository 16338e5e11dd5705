import CampusQuery.Proofs.Assignment
import CampusQuery.Proofs.Distinct
import CampusQuery.Proofs.Json.Prefixes
import Mathlib.Data.List.Perm.Basic
/-!
Values that differ in the order of members.

Where no object has a name twice, reordering its members leaves the value under each name, but for
the order of members in it.
-/

namespace CampusQuery

namespace Json

mutual
/-- The values differ in nothing but the order of the members of objects, at any depth. -/
def Reordered : Json → Json → Prop
  | .array items, .array others => ReorderedItems items others
  | .object members, .object others =>
    ∃ middle, ReorderedMembers members middle ∧ middle.Perm others
  | j, k => j = k

/-- The values differ one by one in nothing but the order of members. -/
def ReorderedItems : List Json → List Json → Prop
  | [], [] => True
  | j :: items, k :: others => Reordered j k ∧ ReorderedItems items others
  | _, _ => False

/-- The members have the same names, and values that differ in nothing but the order of members. -/
def ReorderedMembers : List (String × Json) → List (String × Json) → Prop
  | [], [] => True
  | (key, j) :: members, (other, k) :: others =>
    key = other ∧ Reordered j k ∧ ReorderedMembers members others
  | _, _ => False
end

mutual
/-- No object has a name twice. -/
def NamesOnce : Json → Prop
  | .array items => NamesOnceItems items
  | .object members => (members.map Prod.fst).Nodup ∧ NamesOnceMembers members
  | _ => True

@[inherit_doc NamesOnce]
def NamesOnceItems : List Json → Prop
  | [] => True
  | j :: items => NamesOnce j ∧ NamesOnceItems items

@[inherit_doc NamesOnce]
def NamesOnceMembers : List (String × Json) → Prop
  | [] => True
  | (_, j) :: members => NamesOnce j ∧ NamesOnceMembers members
end

theorem reorderedItems_iff {items others : List Json} :
    ReorderedItems items others ↔ List.Forall₂ Reordered items others := by
  induction items generalizing others with
  | nil => cases others <;> simp [ReorderedItems]
  | cons j items ih => cases others <;> simp [ReorderedItems, ih]

theorem reorderedMembers_iff {members others : List (String × Json)} :
    ReorderedMembers members others ↔
      List.Forall₂ (fun m n => m.1 = n.1 ∧ m.2.Reordered n.2) members others := by
  induction members generalizing others with
  | nil => cases others <;> simp [ReorderedMembers]
  | cons m members ih => cases others <;> simp [ReorderedMembers, ih, and_assoc]

mutual
theorem reordered_refl : (j : Json) → j.Reordered j
  | .array items => by
    rw [Reordered]
    exact reorderedItems_refl items
  | .object members => by
    rw [Reordered]
    exact ⟨members, reorderedMembers_refl members, .refl members⟩
  | .null | .bool _ | .number _ | .string _ => by simp [Reordered]

theorem reorderedItems_refl : (items : List Json) → ReorderedItems items items
  | [] => trivial
  | j :: items => ⟨reordered_refl j, reorderedItems_refl items⟩

theorem reorderedMembers_refl : (members : List (String × Json)) → ReorderedMembers members members
  | [] => trivial
  | (_, j) :: members => ⟨rfl, reordered_refl j, reorderedMembers_refl members⟩
end

theorem reordered_of_perm {members others : List (String × Json)} (h : members.Perm others) :
    (object members).Reordered (.object others) :=
  ⟨members, reorderedMembers_refl members, h⟩

mutual
theorem reordered_symm : (j k : Json) → j.Reordered k → k.Reordered j
  | .array items, .array others, h => by
    rw [Reordered] at h ⊢
    exact reorderedItems_symm items others h
  | .object members, .object others, h => by
    rw [Reordered] at h ⊢
    obtain ⟨middle, hvalues, hperm⟩ := h
    -- Backwards the permutation would come first; it can as well follow the values.
    have hback := reorderedMembers_iff.1 (reorderedMembers_symm members middle hvalues)
    obtain ⟨middle', hvalues', hperm'⟩ := List.perm_comp_forall₂ hperm.symm hback
    exact ⟨middle', reorderedMembers_iff.2 hvalues', hperm'⟩
  | .null, k, h => by cases k <;> simp_all [Reordered]
  | .bool _, k, h => by cases k <;> simp_all [Reordered]
  | .number _, k, h => by cases k <;> simp_all [Reordered]
  | .string _, k, h => by cases k <;> simp_all [Reordered]

theorem reorderedItems_symm : (items others : List Json) →
    ReorderedItems items others → ReorderedItems others items
  | [], [], _ => trivial
  | j :: items, k :: others, h => by
    rw [ReorderedItems] at h ⊢
    exact ⟨reordered_symm j k h.1, reorderedItems_symm items others h.2⟩

theorem reorderedMembers_symm : (members others : List (String × Json)) →
    ReorderedMembers members others → ReorderedMembers others members
  | [], [], _ => trivial
  | (key, j) :: members, (other, k) :: others, h => by
    rw [ReorderedMembers] at h ⊢
    exact ⟨h.1.symm, reordered_symm j k h.2.1, reorderedMembers_symm members others h.2.2⟩
end

/-! ### Shapes -/

section

variable {j k : Json}

theorem reordered_array_iff {items : List Json} :
    (array items).Reordered k ↔
      ∃ others, k = .array others ∧ List.Forall₂ Reordered items others := by
  cases k <;> simp [Reordered, reorderedItems_iff]

theorem exists_of_reordered_object {members : List (String × Json)}
    (h : (object members).Reordered k) : ∃ others, k = .object others := by
  cases k <;> simp_all [Reordered]

/-- An object of one member has nothing to reorder but what is in it. -/
theorem exists_of_reordered_member {key : String} (h : (object [(key, j)]).Reordered k) :
    ∃ j', k = .object [(key, j')] ∧ j.Reordered j' := by
  obtain ⟨others, rfl⟩ := exists_of_reordered_object h
  obtain ⟨middle, hvalues, hperm⟩ := h
  rw [reorderedMembers_iff, List.forall₂_cons_left_iff] at hvalues
  obtain ⟨⟨_, j'⟩, _, ⟨rfl, hj⟩, hnil, rfl⟩ := hvalues
  rw [List.forall₂_nil_left_iff] at hnil
  subst hnil
  exact ⟨j', by rw [List.singleton_perm.1 hperm], hj⟩

theorem exists_of_reordered_array_member {key : String} {items : List Json}
    (h : (object [(key, array items)]).Reordered k) :
    ∃ others, k = .object [(key, .array others)] ∧ List.Forall₂ Reordered items others ∧
      (items ≠ [] → others ≠ []) := by
  obtain ⟨_, rfl, hbody⟩ := exists_of_reordered_member h
  obtain ⟨others, rfl, hitems⟩ := reordered_array_iff.1 hbody
  refine ⟨others, rfl, hitems, fun hne hnil => hne ?_⟩
  rwa [hnil, List.forall₂_nil_right_iff] at hitems

/-- The value has nothing to reorder. -/
def Fixed (j : Json) : Prop :=
  ∀ k, j.Reordered k → k = j

theorem fixed_number (n : Number) : (number n).Fixed := by
  intro k h
  cases k <;> simp_all [Reordered]

theorem fixed_string (s : String) : (string s).Fixed := by
  intro k h
  cases k <;> simp_all [Reordered]

theorem Fixed.array {items : List Json} (hitems : ∀ j ∈ items, j.Fixed) :
    (array items).Fixed := by
  intro k hk
  obtain ⟨others, rfl, hothers⟩ := reordered_array_iff.1 hk
  rw [array.injEq]
  clear hk
  induction hothers with
  | nil => rfl
  | cons hjk _ ih =>
    rw [List.forall_mem_cons] at hitems
    rw [hitems.1 _ hjk, ih hitems.2]

theorem fixed_texts (texts : List String) : (array (texts.map string)).Fixed := by
  apply Fixed.array
  intro j hj
  obtain ⟨s, -, rfl⟩ := List.mem_map.1 hj
  exact fixed_string s

theorem Fixed.member (h : j.Fixed) (key : String) : (object [(key, j)]).Fixed := by
  intro k hk
  obtain ⟨j', rfl, hj⟩ := exists_of_reordered_member hk
  rw [h j' hj]

end

/-! ### Names -/

theorem namesOnceItems_iff {items : List Json} :
    NamesOnceItems items ↔ ∀ j ∈ items, j.NamesOnce := by
  induction items with
  | nil => simp [NamesOnceItems]
  | cons j items ih => rw [NamesOnceItems, ih, List.forall_mem_cons]

theorem namesOnceMembers_iff {members : List (String × Json)} :
    NamesOnceMembers members ↔ ∀ m ∈ members, m.2.NamesOnce := by
  induction members with
  | nil => simp [NamesOnceMembers]
  | cons m members ih => rw [NamesOnceMembers, ih, List.forall_mem_cons]

section

variable {members others : List (String × Json)}

theorem names_eq_of_reorderedMembers (h : ReorderedMembers members others) :
    members.map Prod.fst = others.map Prod.fst := by
  rw [← List.forall₂_eq_eq_eq, List.forall₂_map_left_iff, List.forall₂_map_right_iff]
  exact (reorderedMembers_iff.1 h).imp fun _ _ h => h.1

theorem names_perm_of_reordered (h : (object members).Reordered (.object others)) :
    (members.map Prod.fst).Perm (others.map Prod.fst) := by
  obtain ⟨middle, hvalues, hperm⟩ := h
  rw [names_eq_of_reorderedMembers hvalues]
  exact hperm.map Prod.fst

theorem get?_of_reorderedMembers (h : ReorderedMembers members others) (key : String) :
    Option.Rel Reordered (get? key members) (get? key others) := by
  rw [reorderedMembers_iff] at h
  induction h with
  | nil => exact .none
  | @cons m n members others hmn _ ih =>
    rw [get?, List.lookup_cons, List.lookup_cons, hmn.1]
    cases key == n.1
    · exact ih
    · exact .some hmn.2

/-- Under each name stands the same, but for the order of members in it. -/
theorem get?_of_reordered (hnames : (members.map Prod.fst).Nodup)
    (h : (object members).Reordered (.object others)) (key : String) :
    Option.Rel Reordered (get? key members) (get? key others) := by
  obtain ⟨middle, hvalues, hperm⟩ := h
  rw [names_eq_of_reorderedMembers hvalues] at hnames
  rw [get?, ← lookup_perm hperm hnames key]
  exact get?_of_reorderedMembers hvalues key

theorem exists_get?_of_reordered (hnames : (members.map Prod.fst).Nodup)
    (h : (object members).Reordered (.object others)) {key : String} {j : Json}
    (hj : get? key members = some j) : ∃ k, get? key others = some k ∧ j.Reordered k := by
  have hrel := get?_of_reordered hnames h key
  rw [hj] at hrel
  cases hk : get? key others with
  | none =>
    rw [hk] at hrel
    cases hrel
  | some k =>
    rw [hk, Option.rel_some_some] at hrel
    exact ⟨k, rfl, hrel⟩

theorem get?_eq_of_fixed (hnames : (members.map Prod.fst).Nodup)
    (h : (object members).Reordered (.object others)) {key : String} {j : Json}
    (hj : get? key members = some j) (hfixed : j.Fixed) : get? key others = some j := by
  obtain ⟨k, hk, hjk⟩ := exists_get?_of_reordered hnames h hj
  rw [hk, hfixed k hjk]

theorem namesOnce_of_get? (h : NamesOnceMembers members) {key : String} {j : Json}
    (hj : get? key members = some j) : j.NamesOnce :=
  namesOnceMembers_iff.1 h _ (mem_of_lookup hj)

end

mutual
theorem namesOnce_of_reordered : (j k : Json) → j.Reordered k → j.NamesOnce → k.NamesOnce
  | .array items, .array others, h, hnames => by
    rw [Reordered] at h
    rw [NamesOnce] at hnames ⊢
    exact namesOnceItems_of_reordered items others h hnames
  | .object members, .object others, h, hnames => by
    rw [NamesOnce] at hnames ⊢
    obtain ⟨middle, hvalues, hperm⟩ := id h
    refine ⟨(names_perm_of_reordered h).nodup_iff.1 hnames.1, namesOnceMembers_iff.2 ?_⟩
    have hmiddle := namesOnceMembers_of_reordered members middle hvalues hnames.2
    exact fun m hm => namesOnceMembers_iff.1 hmiddle m (hperm.mem_iff.2 hm)
  | .null, k, h, _ => by cases k <;> simp_all [Reordered, NamesOnce]
  | .bool _, k, h, _ => by cases k <;> simp_all [Reordered, NamesOnce]
  | .number _, k, h, _ => by cases k <;> simp_all [Reordered, NamesOnce]
  | .string _, k, h, _ => by cases k <;> simp_all [Reordered, NamesOnce]

theorem namesOnceItems_of_reordered : (items others : List Json) →
    ReorderedItems items others → NamesOnceItems items → NamesOnceItems others
  | [], [], _, hnames => hnames
  | j :: items, k :: others, h, hnames => by
    rw [ReorderedItems] at h
    rw [NamesOnceItems] at hnames ⊢
    exact ⟨namesOnce_of_reordered j k h.1 hnames.1,
      namesOnceItems_of_reordered items others h.2 hnames.2⟩

theorem namesOnceMembers_of_reordered : (members others : List (String × Json)) →
    ReorderedMembers members others → NamesOnceMembers members → NamesOnceMembers others
  | [], [], _, hnames => hnames
  | (key, j) :: members, (other, k) :: others, h, hnames => by
    rw [ReorderedMembers] at h
    rw [NamesOnceMembers] at hnames ⊢
    exact ⟨namesOnce_of_reordered j k h.2.1 hnames.1,
      namesOnceMembers_of_reordered members others h.2.2 hnames.2⟩
end

mutual
/-- Settling an object leaves each of its names once. -/
theorem namesOnce_settled : (j : Json) → j.settled.NamesOnce
  | .array items => by
    rw [settled, NamesOnce]
    exact namesOnceItems_settled items
  | .object members => by
    rw [settled, NamesOnce, keys_assignAll]
    refine ⟨nodup_eraseDups _, namesOnceMembers_iff.2 fun m hm => ?_⟩
    exact namesOnceMembers_iff.1 (namesOnceMembers_settled members) m (mem_of_mem_assignAll hm)
  | .null | .bool _ | .number _ | .string _ => by simp [settled, NamesOnce]

theorem namesOnceItems_settled : (items : List Json) → NamesOnceItems (settledItems items)
  | [] => trivial
  | j :: items => by
    rw [settledItems, NamesOnceItems]
    exact ⟨namesOnce_settled j, namesOnceItems_settled items⟩

theorem namesOnceMembers_settled : (members : List (String × Json)) →
    NamesOnceMembers (settledMembers members)
  | [] => trivial
  | (key, j) :: members => by
    rw [settledMembers, NamesOnceMembers]
    exact ⟨namesOnce_settled j, namesOnceMembers_settled members⟩
end

/-- A value that is read from a text has each name once. -/
theorem namesOnce_of_read {text : String} {j : Json} (h : read text = .ok j) : j.NamesOnce := by
  obtain ⟨_, json, -, -, rfl⟩ := read_eq_ok_iff.1 h
  exact namesOnce_settled json

end Json

end CampusQuery
