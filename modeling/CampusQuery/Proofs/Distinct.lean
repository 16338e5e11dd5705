import CampusQuery.Distinct
import Mathlib.Data.List.Basic
import Std.Data.HashSet.Lemmas
/-!
Keeping the first of each is erasing the later duplicates.

Erasing duplicates goes on with those of the tail that are no duplicate of the head. Its properties
are therefore proved by an induction that has the filtered tails as its hypotheses.
-/

namespace CampusQuery

section

variable {α : Type}

/-- A list is done when all that is filtered from its tail is. -/
theorem filter_induction {P : List α → Prop} (hnil : P [])
    (hcons : ∀ a l, (∀ p : α → Bool, P (l.filter p)) → P (a :: l)) (l : List α) : P l := by
  induction hlength : l.length using Nat.strongRecOn generalizing l with
  | ind n ih =>
    cases l with
    | nil => exact hnil
    | cons a l =>
      apply hcons
      intro p
      have hle := List.length_filter_le p l
      rw [List.length_cons] at hlength
      exact ih _ (by omega) _ rfl

variable {same same' : α → α → Bool}

theorem eraseDupsBy_sublist (l : List α) : (l.eraseDupsBy same).Sublist l := by
  induction l using filter_induction with
  | hnil => exact .slnil
  | hcons a l ih =>
    rw [List.eraseDupsBy_cons]
    exact ((ih _).trans List.filter_sublist).cons_cons a

theorem eraseDupsBy_congr {l : List α} (h : ∀ a ∈ l, ∀ b ∈ l, same b a = same' b a) :
    l.eraseDupsBy same = l.eraseDupsBy same' := by
  induction l using filter_induction with
  | hnil => rfl
  | hcons a l ih =>
    have hfilter : l.filter (fun b => decide (same b a = false)) =
        l.filter fun b => decide (same' b a = false) := by
      apply List.filter_congr
      intro b hb
      rw [h a List.mem_cons_self b (List.mem_cons_of_mem a hb)]
    rw [List.eraseDupsBy_cons, List.eraseDupsBy_cons, hfilter, ih]
    intro b hb c hc
    exact h b (List.mem_cons_of_mem a (List.mem_of_mem_filter hb)) c
      (List.mem_cons_of_mem a (List.mem_of_mem_filter hc))

/-- Between two lists without a common element, nothing is erased. -/
theorem eraseDupsBy_append {l l' : List α} (h : ∀ a ∈ l, ∀ b ∈ l', same b a = false) :
    (l ++ l').eraseDupsBy same = l.eraseDupsBy same ++ l'.eraseDupsBy same := by
  induction l using filter_induction with
  | hnil => rfl
  | hcons a l ih =>
    have hkept : l'.filter (fun b => decide (same b a = false)) = l' := by
      rw [List.filter_eq_self]
      intro b hb
      exact decide_eq_true (h a List.mem_cons_self b hb)
    rw [List.cons_append, List.eraseDupsBy_cons, List.filter_append, hkept, ih,
      List.eraseDupsBy_cons, List.cons_append]
    intro b hb
    exact h b (List.mem_cons_of_mem a (List.mem_of_mem_filter hb))

/-- A test that duplicates pass alike can come first. -/
theorem eraseDupsBy_filter {l : List α} {p : α → Bool}
    (h : ∀ a ∈ l, ∀ b ∈ l, same b a = true → p b = p a) :
    (l.filter p).eraseDupsBy same = (l.eraseDupsBy same).filter p := by
  induction l using filter_induction with
  | hnil => rfl
  | hcons a l ih =>
    have hrest : ((l.filter fun b => decide (same b a = false)).filter p).eraseDupsBy same =
        ((l.filter fun b => decide (same b a = false)).eraseDupsBy same).filter p := by
      apply ih
      intro b hb c hc
      exact h b (List.mem_cons_of_mem a (List.mem_of_mem_filter hb)) c
        (List.mem_cons_of_mem a (List.mem_of_mem_filter hc))
    rw [List.eraseDupsBy_cons]
    cases ha : p a with
    | true =>
      rw [List.filter_cons_of_pos ha, List.filter_cons_of_pos ha, List.eraseDupsBy_cons, ← hrest,
        List.filter_comm]
    | false =>
      have hnone : (l.filter fun b => decide (same b a = false)).filter p = l.filter p := by
        rw [List.filter_filter]
        apply List.filter_congr
        intro b hb
        cases hsame : same b a with
        | true => rw [h a List.mem_cons_self b (List.mem_cons_of_mem a hb) hsame, ha]; rfl
        | false => simp
      rw [List.filter_cons_of_neg (by simp [ha]), List.filter_cons_of_neg (by simp [ha]), ← hrest,
        hnone]

theorem eraseDupsBy_map {β : Type} (f : β → α) (l : List β) :
    (l.map f).eraseDupsBy same = (l.eraseDupsBy fun a b => same (f a) (f b)).map f := by
  induction l using filter_induction with
  | hnil => rfl
  | hcons a l ih =>
    rw [List.map_cons, List.eraseDupsBy_cons, List.filter_map, ih, List.eraseDupsBy_cons,
      List.map_cons]
    rfl

theorem nodup_eraseDups [BEq α] [LawfulBEq α] (l : List α) : l.eraseDups.Nodup := by
  induction l using filter_induction with
  | hnil => exact List.nodup_nil
  | hcons a l ih =>
    rw [List.eraseDups_cons, List.nodup_cons, List.mem_eraseDups]
    exact ⟨by simp, ih _⟩

theorem eraseDups_perm [BEq α] [LawfulBEq α] {l l' : List α} (h : l.Perm l') :
    l.eraseDups.Perm l'.eraseDups := by
  rw [List.perm_ext_iff_of_nodup (nodup_eraseDups l) (nodup_eraseDups l')]
  intro a
  rw [List.mem_eraseDups, List.mem_eraseDups, h.mem_iff]

/-- What is kept is the first of its duplicates. -/
theorem find?_of_mem_eraseDupsBy {κ : Type} [BEq κ] [LawfulBEq κ] {key : α → κ} {l : List α} {r : α}
    (h : r ∈ l.eraseDupsBy fun a b => key a == key b) :
    l.find? (fun a => key a == key r) = some r := by
  induction l using filter_induction with
  | hnil => cases h
  | hcons a l ih =>
    rw [List.eraseDupsBy_cons] at h
    rcases List.mem_cons.1 h with rfl | h
    · simp
    · have hfind := ih _ h
      have hne : (key r == key a) = false :=
        of_decide_eq_true (List.mem_filter.1 (List.mem_of_find?_eq_some hfind)).2
      rw [List.find?_cons_of_neg (by rwa [BEq.comm, Bool.not_eq_true]), ← hfind, List.find?_filter]
      congr 1
      funext b
      cases hb : key b == key r with
      | true => simp [eq_of_beq hb, hne]
      | false => simp

end

/-! ### One for each class -/

/-- Some elements of a list, of which no two are the same, and each element is the same as one. -/
structure Representatives {α : Type} (same : α → α → Prop) (l chosen : List α) : Prop where
  sublist : chosen.Sublist l
  different : chosen.Pairwise fun a b => ¬same a b
  complete : ∀ a ∈ l, ∃ b ∈ chosen, same a b

section

variable {α κ : Type} [BEq κ] [LawfulBEq κ] {key : α → κ} {l chosen : List α}

/-- What is kept of a list stands for all of it. -/
theorem representatives_eraseDupsBy (key : α → κ) (l : List α) :
    Representatives (fun a b => key a = key b) l (l.eraseDupsBy fun a b => key a == key b) := by
  have hmap : (l.eraseDupsBy fun a b => key a == key b).map key = (l.map key).eraseDups :=
    (eraseDupsBy_map key l).symm
  refine ⟨eraseDupsBy_sublist l, ?_, fun a ha => ?_⟩
  · have hnodup := nodup_eraseDups (l.map key)
    rw [← hmap] at hnodup
    exact List.pairwise_map.1 hnodup
  · have hkey : key a ∈ (l.eraseDupsBy fun a b => key a == key b).map key := by
      rw [hmap, List.mem_eraseDups]
      exact List.mem_map_of_mem ha
    obtain ⟨b, hb, heq⟩ := List.mem_map.1 hkey
    exact ⟨b, hb, heq.symm⟩

/-- There are as many representatives as different keys. -/
theorem Representatives.length_eq (h : Representatives (fun a b => key a = key b) l chosen) :
    chosen.length = (l.map key).eraseDups.length := by
  have hnodup : (chosen.map key).Nodup := List.pairwise_map.2 h.different
  have hmem (k : κ) : k ∈ chosen.map key ↔ k ∈ (l.map key).eraseDups := by
    rw [List.mem_eraseDups, List.mem_map, List.mem_map]
    constructor
    · rintro ⟨a, ha, rfl⟩
      exact ⟨a, h.sublist.subset ha, rfl⟩
    · rintro ⟨a, ha, rfl⟩
      obtain ⟨b, hb, heq⟩ := h.complete a ha
      exact ⟨b, hb, heq.symm⟩
  rw [← List.length_map key]
  exact ((List.perm_ext_iff_of_nodup hnodup (nodup_eraseDups _)).2 hmem).length_eq

theorem Representatives.length_eq_length_iff
    (h : Representatives (fun a b => key a = key b) l chosen) :
    chosen.length = l.length ↔ l.Pairwise fun a b => ¬key a = key b := by
  constructor
  · intro hlength
    have heq := h.sublist.eq_of_length hlength
    exact heq ▸ h.different
  · intro hl
    have hself : Representatives (fun a b => key a = key b) l l :=
      ⟨List.Sublist.refl l, hl, fun a ha => ⟨a, ha, rfl⟩⟩
    rw [h.length_eq, hself.length_eq]

end

variable {α κ : Type} [BEq κ] [Hashable κ] {key : α → κ}

theorem distinctFrom_sublist (seen : Std.HashSet κ) (l : List α) :
    (distinctFrom key seen l).Sublist l := by
  induction l generalizing seen with
  | nil => exact .slnil
  | cons a l ih =>
    unfold distinctFrom
    split
    · exact (ih seen).cons a
    · exact (ih _).cons_cons a

theorem distinctBy_sublist (l : List α) : (distinctBy key l).Sublist l :=
  distinctFrom_sublist ∅ l

variable [EquivBEq κ] [LawfulHashable κ]

/-- The set holds the keys of what is left out already. -/
theorem distinctFrom_eq_eraseDupsBy (seen : Std.HashSet κ) (l : List α) :
    distinctFrom key seen l =
      (l.filter fun a => !seen.contains (key a)).eraseDupsBy fun a b => key a == key b := by
  induction l generalizing seen with
  | nil => rfl
  | cons a l ih =>
    unfold distinctFrom
    cases hseen : seen.contains (key a) with
    | true => simp [hseen, ih]
    | false =>
      rw [if_neg (by simp), ih, List.filter_cons_of_pos (by simp [hseen]), List.eraseDupsBy_cons,
        List.filter_filter]
      congr 2
      apply List.filter_congr
      intro b _
      rw [Std.HashSet.contains_insert, BEq.comm]
      cases key b == key a <;> simp

theorem distinctBy_eq_eraseDupsBy (l : List α) :
    distinctBy key l = l.eraseDupsBy fun a b => key a == key b := by
  rw [distinctBy, distinctFrom_eq_eraseDupsBy, List.filter_eq_self.2]
  simp

end CampusQuery
