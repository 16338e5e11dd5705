import CampusQuery.Assignment
import Mathlib.Tactic.SplitIfs
/-!
What named values are after an assignment, and which names there are.
-/

namespace CampusQuery

variable {α : Type}

theorem lookup_assign (key key' : String) (value : α) (entries : List (String × α)) :
    (assign key value entries).lookup key' =
      if key' = key then some value else entries.lookup key' := by
  induction entries with
  | nil =>
    by_cases heq : key' = key
    · simp [assign, heq]
    · simp [assign, heq]
  | cons entry entries ih =>
    obtain ⟨k, v⟩ := entry
    rw [assign]
    by_cases hk : k = key
    · subst hk
      by_cases heq : key' = k
      · simp [heq]
      · have hbeq : (key' == k) = false := beq_eq_false_iff_ne.2 heq
        simp [List.lookup_cons, hbeq, heq]
    · rw [if_neg hk, List.lookup_cons, List.lookup_cons, ih]
      by_cases heq : key' = key
      · subst heq
        have hbeq : (key' == k) = false := beq_eq_false_iff_ne.2 (Ne.symm hk)
        simp [hbeq]
      · simp only [if_neg heq]

/-- Where each name stands once, it has the value that stands beside it. -/
theorem lookup_of_mem {entries : List (String × α)} (hnodup : (entries.map Prod.fst).Nodup)
    {key : String} {value : α} (h : (key, value) ∈ entries) : entries.lookup key = some value := by
  obtain ⟨front, back, rfl⟩ := List.append_of_mem h
  refine List.lookup_eq_some_iff.2 ⟨front, back, rfl, fun entry hentry => ?_⟩
  rw [List.map_append, List.map_cons, List.nodup_append] at hnodup
  have hne : entry.1 ≠ key :=
    hnodup.2.2 entry.1 (List.mem_map_of_mem hentry) key List.mem_cons_self
  exact bne_iff_ne.2 hne.symm

theorem mem_of_lookup {entries : List (String × α)} {key : String} {value : α}
    (h : entries.lookup key = some value) : (key, value) ∈ entries := by
  obtain ⟨front, back, rfl, -⟩ := List.lookup_eq_some_iff.1 h
  exact List.mem_append_right front List.mem_cons_self

/-- Where each name stands once, it does not matter in which order. -/
theorem lookup_perm {entries others : List (String × α)} (hperm : entries.Perm others)
    (hnodup : (entries.map Prod.fst).Nodup) (key : String) :
    entries.lookup key = others.lookup key := by
  have hnodup' : (others.map Prod.fst).Nodup := (hperm.map Prod.fst).nodup_iff.1 hnodup
  apply Option.ext
  intro value
  constructor
  · exact fun h => lookup_of_mem hnodup' (hperm.mem_iff.1 (mem_of_lookup h))
  · exact fun h => lookup_of_mem hnodup (hperm.mem_iff.2 (mem_of_lookup h))

/-- A value without a name yet goes to the end. -/
theorem assign_of_not_mem {key : String} (value : α) {entries : List (String × α)}
    (h : ∀ entry ∈ entries, entry.1 ≠ key) :
    assign key value entries = entries ++ [(key, value)] := by
  induction entries with
  | nil => rfl
  | cons first entries ih =>
    have hrest := ih fun entry hentry => h entry (List.mem_cons_of_mem first hentry)
    rw [assign, if_neg (h first List.mem_cons_self), hrest, List.cons_append]

/-- A name that is given the value it has changes nothing. -/
theorem assign_of_lookup {key : String} {value : α} {entries : List (String × α)}
    (h : entries.lookup key = some value) : assign key value entries = entries := by
  induction entries with
  | nil => cases h
  | cons first entries ih =>
    obtain ⟨k, v⟩ := first
    rw [List.lookup_cons] at h
    rw [assign]
    by_cases hk : k = key
    · subst hk
      rw [beq_self_eq_true] at h
      cases h
      exact if_pos rfl
    · have hbeq : (key == k) = false := beq_eq_false_iff_ne.2 (Ne.symm hk)
      rw [hbeq] at h
      rw [if_neg hk, ih h]

/-- Only what stands under the name is replaced. -/
theorem filter_assign (key : String) (value : α) (entries : List (String × α)) :
    (assign key value entries).filter (·.1 != key) = entries.filter (·.1 != key) := by
  induction entries with
  | nil => simp [assign]
  | cons first entries ih =>
    obtain ⟨k, v⟩ := first
    rw [assign]
    split_ifs with hk
    · rw [List.filter_cons_of_neg (by simpa using hk), List.filter_cons_of_neg (by simpa using hk)]
    · rw [List.filter_cons_of_pos (by simpa using hk), List.filter_cons_of_pos (by simpa using hk),
        ih]

/-- Where each name stands once, a name that has a value has no other. -/
theorem filter_eq_singleton_of_lookup {entries : List (String × α)}
    (hnodup : (entries.map Prod.fst).Nodup) {key : String} {value : α}
    (h : entries.lookup key = some value) : entries.filter (·.1 == key) = [(key, value)] := by
  obtain ⟨front, back, rfl, hfront⟩ := List.lookup_eq_some_iff.1 h
  rw [List.map_append, List.map_cons, List.nodup_append, List.nodup_cons] at hnodup
  have hback : ∀ entry ∈ back, ¬(entry.1 == key) = true := by
    intro entry hentry heq
    have hmem : entry.1 ∈ back.map Prod.fst := List.mem_map_of_mem hentry
    rw [eq_of_beq heq] at hmem
    exact hnodup.2.1.1 hmem
  have hfront : ∀ entry ∈ front, ¬(entry.1 == key) = true := by
    intro entry hentry heq
    exact bne_iff_ne.1 (hfront entry hentry) (eq_of_beq heq).symm
  rw [List.filter_append, List.filter_eq_nil_iff.2 hfront, List.nil_append, List.filter_cons,
    if_pos (beq_self_eq_true key), List.filter_eq_nil_iff.2 hback]

theorem map_assign {β : Type} (f : α → β) (key : String) (value : α)
    (entries : List (String × α)) :
    (assign key value entries).map (fun (k, v) => (k, f v)) =
      assign key (f value) (entries.map fun (k, v) => (k, f v)) := by
  induction entries with
  | nil => rfl
  | cons first entries ih =>
    obtain ⟨k, v⟩ := first
    rw [assign, List.map_cons, assign]
    split_ifs
    · rfl
    · rw [List.map_cons, ih]

theorem mem_of_mem_assign {key : String} {value : α} {entries : List (String × α)}
    {entry : String × α} (h : entry ∈ assign key value entries) :
    entry = (key, value) ∨ entry ∈ entries := by
  induction entries with
  | nil => simpa [assign] using h
  | cons first entries ih =>
    obtain ⟨k, v⟩ := first
    rw [assign] at h
    split_ifs at h with hk
    · rcases List.mem_cons.1 h with rfl | h
      · exact .inl (by rw [hk])
      · exact .inr (List.mem_cons_of_mem _ h)
    · rcases List.mem_cons.1 h with rfl | h
      · exact .inr List.mem_cons_self
      · exact (ih h).imp_right (List.mem_cons_of_mem _)

/-- A new name goes to the end. -/
theorem keys_assign (key : String) (value : α) (entries : List (String × α)) :
    (assign key value entries).map Prod.fst =
      if key ∈ entries.map Prod.fst then entries.map Prod.fst
      else entries.map Prod.fst ++ [key] := by
  induction entries with
  | nil => rfl
  | cons first entries ih =>
    obtain ⟨k, v⟩ := first
    rw [assign]
    split_ifs with hk hmem hmem
    · rfl
    · simp [hk] at hmem
    · simp only [List.map_cons, ih]
      rw [if_pos]
      simpa [Ne.symm hk] using hmem
    · simp only [List.map_cons, ih]
      rw [if_neg, List.cons_append]
      simpa [Ne.symm hk] using hmem

theorem keys_foldl_assign (entries done : List (String × α)) :
    (entries.foldl (fun acc (key, value) => assign key value acc) done).map Prod.fst =
      done.map Prod.fst ++
        ((entries.map Prod.fst).filter (· ∉ done.map Prod.fst)).eraseDups := by
  induction entries generalizing done with
  | nil => simp
  | cons first entries ih =>
    obtain ⟨k, v⟩ := first
    rw [List.foldl_cons, ih, keys_assign]
    by_cases hk : k ∈ done.map Prod.fst
    · rw [if_pos hk, List.map_cons, List.filter_cons_of_neg (by simpa using hk)]
    · rw [if_neg hk, List.map_cons, List.filter_cons_of_pos (by simpa using hk),
        List.eraseDups_cons, List.append_assoc, List.filter_filter, List.singleton_append]
      congr 3
      apply List.filter_congr
      intro key _
      rw [Bool.eq_iff_iff]
      simp only [decide_eq_true_eq, Bool.and_eq_true, List.mem_append, List.mem_singleton,
        Bool.not_eq_true', beq_eq_false_iff_ne, not_or]
      exact and_comm

/-- Each name stands once, at its first place. -/
theorem keys_assignAll (entries : List (String × α)) :
    (assignAll entries).map Prod.fst = (entries.map Prod.fst).eraseDups := by
  rw [assignAll, keys_foldl_assign, List.filter_eq_self.2 (by simp)]
  rfl

/-- Names that differ are all given their values, in their order. -/
theorem assignAll_eq_self {entries : List (String × α)} (h : (entries.map Prod.fst).Nodup) :
    assignAll entries = entries := by
  have hfold (done : List (String × α)) (hnodup : ((done ++ entries).map Prod.fst).Nodup) :
      entries.foldl (fun acc (key, value) => assign key value acc) done = done ++ entries := by
    clear h
    induction entries generalizing done with
    | nil => rw [List.foldl_nil, List.append_nil]
    | cons first entries ih =>
      obtain ⟨k, v⟩ := first
      have hnew : ∀ entry ∈ done, entry.1 ≠ k := by
        rw [List.map_append, List.nodup_append] at hnodup
        exact fun entry hentry => hnodup.2.2 _ (List.mem_map_of_mem hentry) k List.mem_cons_self
      rw [List.foldl_cons]
      dsimp only
      rw [assign_of_not_mem v hnew, ih, List.append_assoc, List.singleton_append]
      rwa [List.append_assoc]
  exact hfold [] h

theorem mem_of_mem_assignAll {entries : List (String × α)} {entry : String × α}
    (h : entry ∈ assignAll entries) : entry ∈ entries := by
  have hfold (done : List (String × α)) :
      entry ∈ entries.foldl (fun acc (key, value) => assign key value acc) done →
        entry ∈ entries ∨ entry ∈ done := by
    clear h
    induction entries generalizing done with
    | nil => exact .inr
    | cons first entries ih =>
      intro h
      rcases ih _ h with h | h
      · exact .inl (List.mem_cons_of_mem first h)
      · rcases mem_of_mem_assign h with rfl | h
        · exact .inl List.mem_cons_self
        · exact .inr h
  simpa using hfold [] h

end CampusQuery
