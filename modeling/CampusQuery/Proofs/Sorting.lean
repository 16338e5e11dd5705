import CampusQuery.Proofs.Distinct
import Mathlib.Data.List.Sort
/-!
Sorting by a comparison keeps what ties in its order. It therefore commutes with keeping the
elements that pass a test, and with erasing the later duplicates where duplicates tie.
-/

namespace CampusQuery

variable {α : Type} {cmp : α → α → Ordering} [Std.TransCmp cmp]

theorem isLE_total (a b : α) : ((cmp a b).isLE || (cmp b a).isLE) = true := by
  rw [@Std.OrientedCmp.eq_swap _ cmp _ b]
  cases cmp a b <;> rfl

theorem pairwise_mergeSort_isLE (l : List α) :
    (l.mergeSort fun a b => (cmp a b).isLE).Pairwise fun a b => (cmp a b).isLE = true :=
  List.pairwise_mergeSort (fun _ _ _ => Std.TransCmp.isLE_trans) isLE_total l

/-- A new element goes behind what is smaller, and before what was behind it. -/
theorem mergeSort_cons_isLE (a : α) (l : List α) :
    let sorted := l.mergeSort fun a b => (cmp a b).isLE
    let front := sorted.filter fun b => !(cmp a b).isLE
    let back := sorted.filter fun b => (cmp a b).isLE
    (a :: l).mergeSort (fun a b => (cmp a b).isLE) = front ++ a :: back ∧
      sorted = front ++ back := by
  obtain ⟨front, back, hcons, hsorted, hfront⟩ :=
    List.mergeSort_cons (fun _ _ _ => Std.TransCmp.isLE_trans) (@isLE_total _ cmp _) a l
  have hback : ∀ b ∈ back, (cmp a b).isLE = true := by
    have hpairwise := @pairwise_mergeSort_isLE _ cmp _ (a :: l)
    rw [hcons, List.pairwise_append, List.pairwise_cons] at hpairwise
    exact hpairwise.2.1.1
  have hfront' : (front ++ back).filter (fun b => !(cmp a b).isLE) = front := by
    rw [List.filter_append, List.filter_eq_self.2 hfront, List.filter_eq_nil_iff.2,
      List.append_nil]
    intro b hb
    simp [hback b hb]
  have hback' : (front ++ back).filter (fun b => (cmp a b).isLE) = back := by
    rw [List.filter_append, List.filter_eq_self.2 hback, List.filter_eq_nil_iff.2,
      List.nil_append]
    intro b hb
    simpa using hfront b hb
  simp only [hcons, hsorted, hfront', hback', and_self]

theorem mergeSort_filter_isLE (p : α → Bool) (l : List α) :
    (l.filter p).mergeSort (fun a b => (cmp a b).isLE) =
      (l.mergeSort fun a b => (cmp a b).isLE).filter p := by
  induction l with
  | nil => rw [List.filter_nil, List.mergeSort_nil, List.filter_nil]
  | cons a l ih =>
    obtain ⟨hcons, hsorted⟩ := @mergeSort_cons_isLE _ cmp _ a l
    rw [hcons, List.filter_append]
    cases ha : p a with
    | true =>
      rw [List.filter_cons_of_pos ha, List.filter_cons_of_pos ha, (mergeSort_cons_isLE a _).1, ih,
        List.filter_comm _ p, List.filter_comm _ p]
    | false =>
      rw [List.filter_cons_of_neg (by simp [ha]), List.filter_cons_of_neg (by simp [ha]), ih,
        ← List.filter_append, ← hsorted]

section

variable {same : α → α → Bool} {a : α} {l : List α}
  (hties : ∀ b ∈ a :: l, ∀ c ∈ a :: l, same c b = true → cmp b c = .eq)
include hties

/-- What is smaller than an element has no duplicates behind it. -/
theorem eraseDupsBy_around :
    (l.filter (fun b => !(cmp a b).isLE) ++
        a :: l.filter fun b => (cmp a b).isLE).eraseDupsBy same =
      (l.filter fun b => !(cmp a b).isLE).eraseDupsBy same ++
        (a :: l.filter fun b => (cmp a b).isLE).eraseDupsBy same := by
  apply eraseDupsBy_append
  intro b hb c hc
  rw [List.mem_filter, Bool.not_eq_true'] at hb
  obtain ⟨hb, hlt⟩ := hb
  rw [Bool.eq_false_iff]
  intro h
  rcases List.mem_cons.1 hc with rfl | hc
  · have htie := hties b (List.mem_cons_of_mem c hb) c List.mem_cons_self h
    rw [Std.OrientedCmp.eq_symm htie] at hlt
    cases hlt
  · rw [List.mem_filter] at hc
    have htie := hties b (List.mem_cons_of_mem a hb) c (List.mem_cons_of_mem a hc.1) h
    rw [Std.TransCmp.congr_right htie, hc.2] at hlt
    cases hlt

/-- A test of the place beside an element can come before or after the duplicates are erased. -/
theorem filter_eraseDupsBy_place (p : Ordering → Bool) :
    (l.eraseDupsBy same).filter (fun b => p (cmp a b)) =
      (l.filter fun b => p (cmp a b)).eraseDupsBy same := by
  refine (eraseDupsBy_filter fun b hb c hc h => ?_).symm
  have htie := hties b (List.mem_cons_of_mem a hb) c (List.mem_cons_of_mem a hc) h
  rw [Std.TransCmp.congr_right htie]

omit [Std.TransCmp cmp] in
/-- The duplicates of an element are not among what is smaller. -/
theorem filter_front_eq :
    (l.filter fun b => decide (same b a = false)).filter (fun b => !(cmp a b).isLE) =
      l.filter fun b => !(cmp a b).isLE := by
  rw [List.filter_filter]
  apply List.filter_congr
  intro b hb
  cases h : same b a with
  | true => simp [hties a List.mem_cons_self b (List.mem_cons_of_mem a hb) h]
  | false => simp

end

/-- It does not matter whether duplicates that tie are erased before or after sorting. -/
theorem mergeSort_eraseDupsBy_isLE {same : α → α → Bool} {l : List α}
    (hsame : ∀ a ∈ l, ∀ b ∈ l, same b a = true → cmp a b = .eq) :
    (l.eraseDupsBy same).mergeSort (fun a b => (cmp a b).isLE) =
      (l.mergeSort fun a b => (cmp a b).isLE).eraseDupsBy same := by
  induction l using filter_induction with
  | hnil => rw [List.eraseDupsBy_nil, List.mergeSort_nil, List.eraseDupsBy_nil]
  | hcons a l ih =>
    have hsub (b : α) (hb : b ∈ l.filter fun b => decide (same b a = false)) : b ∈ a :: l :=
      List.mem_cons_of_mem a (List.mem_of_mem_filter hb)
    have hrest := ih (fun b => decide (same b a = false)) fun b hb c hc =>
      hsame b (hsub b hb) c (hsub c hc)
    have hties : ∀ b ∈ a :: l.mergeSort (fun a b => (cmp a b).isLE),
        ∀ c ∈ a :: l.mergeSort (fun a b => (cmp a b).isLE), same c b = true → cmp b c = .eq := by
      simpa only [List.mem_cons, List.mem_mergeSort] using hsame
    rw [List.eraseDupsBy_cons, (mergeSort_cons_isLE a _).1, (mergeSort_cons_isLE a l).1, hrest,
      mergeSort_filter_isLE, eraseDupsBy_around hties, List.eraseDupsBy_cons]
    generalize (l.mergeSort fun a b => (cmp a b).isLE) = sorted at hties ⊢
    have hties' : ∀ b ∈ a :: sorted.filter (fun b => decide (same b a = false)),
        ∀ c ∈ a :: sorted.filter (fun b => decide (same b a = false)),
          same c b = true → cmp b c = .eq := by
      have hsub {b : α} (hb : b ∈ a :: sorted.filter fun b => decide (same b a = false)) :
          b ∈ a :: sorted :=
        List.cons_subset_cons a List.filter_sublist.subset hb
      exact fun b hb c hc => hties b (hsub hb) c (hsub hc)
    have hfront := filter_eraseDupsBy_place hties' fun o => !o.isLE
    have hback := filter_eraseDupsBy_place hties' fun o => o.isLE
    rw [hfront, hback, filter_front_eq hties, List.filter_comm (fun b => (cmp a b).isLE)]

/-! ### Stable sorting -/

/-- A list is put in order, and what ties stays in its order. -/
structure StablySorted (cmp : α → α → Ordering) (l sorted : List α) : Prop where
  perm : sorted.Perm l
  ordered : sorted.Pairwise fun a b => (cmp a b).isLE = true
  stable : ∀ a, sorted.filter (fun b => cmp a b == .eq) = l.filter fun b => cmp a b == .eq

theorem stablySorted_mergeSort (l : List α) :
    StablySorted cmp l (l.mergeSort fun a b => (cmp a b).isLE) := by
  refine ⟨List.mergeSort_perm _ _, pairwise_mergeSort_isLE l, fun a => ?_⟩
  rw [← mergeSort_filter_isLE]
  apply List.mergeSort_of_pairwise
  rw [List.pairwise_filter]
  refine List.pairwise_of_forall_mem_list fun b _ c _ hb hc => ?_
  rw [beq_iff_eq] at hb hc
  rw [Std.TransCmp.congr_left (Std.OrientedCmp.eq_symm hb), hc]
  rfl

/-- Lists in order are the same if what ties is the same in both. -/
theorem eq_of_filter_ties_eq {l l' : List α} (hl : l.Pairwise fun a b => (cmp a b).isLE = true)
    (hl' : l'.Pairwise fun a b => (cmp a b).isLE = true)
    (h : ∀ a, l.filter (fun b => cmp a b == .eq) = l'.filter fun b => cmp a b == .eq) : l = l' := by
  have hself (a : α) : (cmp a a == .eq) = true := beq_iff_eq.2 Std.ReflCmp.compare_self
  induction l generalizing l' with
  | nil =>
    cases l' with
    | nil => rfl
    | cons b l' => simpa [hself] using h b
  | cons a l ih =>
    cases l' with
    | nil => simpa [hself] using h a
    | cons b l' =>
      have hmem (c : α) : c ∈ a :: l ↔ c ∈ b :: l' := by
        have htie := congrArg (c ∈ ·) (h c)
        simpa only [List.mem_filter, hself, and_true, eq_iff_iff] using htie
      have hle {a b : α} {l : List α} (hl : (a :: l).Pairwise fun a b => (cmp a b).isLE = true)
          (hb : b ∈ a :: l) : (cmp a b).isLE = true := by
        rcases List.mem_cons.1 hb with hb | hb
        · rw [hb, beq_iff_eq.1 (hself a)]
          rfl
        · exact List.rel_of_pairwise_cons hl hb
      -- Neither of the first elements is above the other, so they tie.
      have htie : cmp a b = .eq := Std.OrientedCmp.isLE_antisymm
        (hle hl ((hmem b).2 List.mem_cons_self)) (hle hl' ((hmem a).1 List.mem_cons_self))
      have hfirst := h a
      rw [List.filter_cons, if_pos (hself a), List.filter_cons, if_pos (beq_iff_eq.2 htie)] at hfirst
      obtain rfl : a = b := (List.cons.inj hfirst).1
      congr 1
      refine ih hl.of_cons hl'.of_cons fun c => ?_
      have hrest := h c
      rw [List.filter_cons, List.filter_cons] at hrest
      split_ifs at hrest
      · exact (List.cons.inj hrest).2
      · exact hrest

theorem StablySorted.unique {l sorted sorted' : List α} (h : StablySorted cmp l sorted)
    (h' : StablySorted cmp l sorted') : sorted = sorted' :=
  eq_of_filter_ties_eq h.ordered h'.ordered fun a => (h.stable a).trans (h'.stable a).symm

/-- Sorting by one comparison and then by another is sorting by both, the later of them being the
first to decide. -/
theorem StablySorted.then {cmp' : α → α → Ordering} {l middle sorted : List α}
    (hmiddle : StablySorted cmp' l middle) (h : StablySorted cmp middle sorted) :
    StablySorted (fun a b => (cmp a b).then (cmp' a b)) l sorted := by
  refine ⟨h.perm.trans hmiddle.perm, ?_, fun a => ?_⟩
  · rw [List.pairwise_iff_forall_sublist]
    intro a b hab
    have hle := List.pairwise_iff_forall_sublist.1 h.ordered hab
    cases htie : cmp a b with
    | lt => rfl
    | gt => simp [htie] at hle
    | eq =>
      -- What ties is still in the order of the first sort.
      have hties : [a, b].Sublist (middle.filter fun c => cmp a c == .eq) := by
        have hself : cmp a a = .eq := Std.ReflCmp.compare_self
        have hsublist := hab.filter fun c => cmp a c == .eq
        simpa [h.stable, htie, hself] using hsublist
      exact List.pairwise_iff_forall_sublist.1 hmiddle.ordered (hties.trans List.filter_sublist)
  · have hboth (l : List α) : l.filter (fun b => (cmp a b).then (cmp' a b) == .eq) =
        (l.filter fun b => cmp a b == .eq).filter fun b => cmp' a b == .eq := by
      rw [List.filter_filter]
      apply List.filter_congr
      intro b _
      cases cmp a b <;> simp
    rw [hboth, h.stable, List.filter_comm, hmiddle.stable, List.filter_comm, ← hboth]

/-- A list that is sorted backwards is sorted for the flipped comparison, and what ties is again in
its order. -/
theorem StablySorted.reverse {l sorted : List α} (h : StablySorted cmp l.reverse sorted) :
    StablySorted (fun a b => cmp b a) l sorted.reverse := by
  have hflip (a b : α) : (cmp b a == .eq) = (cmp a b == .eq) := by
    rw [@Std.OrientedCmp.eq_swap _ cmp _ a b]
    cases cmp b a <;> rfl
  refine ⟨?_, List.pairwise_reverse.2 h.ordered, fun a => ?_⟩
  · exact (List.reverse_perm sorted).trans (h.perm.trans (List.reverse_perm l))
  · simp only [hflip, List.filter_reverse]
    rw [h.stable, List.filter_reverse, List.reverse_reverse]

end CampusQuery
