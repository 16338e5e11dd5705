import CampusQuery.Query.Validation
import Mathlib.Data.List.Forall2
/-!
What the steps of the walk over a query yield.

The walk settles its subject at the first key and holds all later keys to it. `Check.Yields` looks
at a step from a subject that is known in advance: the step may start before that subject is
settled, but it must not end at another one. Seen like this a step does no more than to relate
values to results, which is what `Check.Realizes` says, and the relations of larger steps are put
together from those of smaller ones.
-/

namespace CampusQuery

/-- The subject is the settled one, if one is settled. -/
def Subject.Fits (subject : Subject) (settled : Option Subject) : Prop :=
  ∀ other ∈ settled, other = subject

namespace Check

variable {α β : Type} {subject : Subject} {settled settled' : Option Subject}
  {m : Check α} {k : α → Check β} {R : α → Prop} {S : α → β → Prop}

/-- The step ends with the result, and with no other subject. -/
def Yields (subject : Subject) (m : Check α) (settled : Option Subject) (a : α) : Prop :=
  ∃ settled', m settled = .ok (a, settled') ∧ subject.Fits settled'

/-- The results of the step are those in `R`, wherever it starts. -/
def Realizes (subject : Subject) (m : Check α) (R : α → Prop) : Prop :=
  ∀ settled a, Yields subject m settled a ↔ subject.Fits settled ∧ R a

theorem bind_eq_ok_iff {b : β} :
    (m >>= k) settled = .ok (b, settled') ↔
      ∃ a middle, m settled = .ok (a, middle) ∧ k a middle = .ok (b, settled') := by
  change (m settled >>= fun p => k p.1 p.2) = _ ↔ _
  cases hm : m settled with
  | error fault => simp [bind, Except.bind]
  | ok p => simp [bind, Except.bind, Prod.ext_iff]

theorem get_bind_apply {k : Option Subject → Check α} :
    ((get : Check (Option Subject)) >>= k) settled = k settled settled :=
  rfl

theorem Realizes.of_iff {R' : α → Prop} (h : Realizes subject m R) (hR : ∀ a, R a ↔ R' a) :
    Realizes subject m R' := by
  intro settled a
  rw [h settled a, hR]

theorem Realizes.pure (a : α) : Realizes subject (pure a) (a = ·) := by
  intro settled b
  constructor
  · intro h
    rcases h with ⟨_, heq, hfits⟩
    cases heq
    exact ⟨hfits, rfl⟩
  · intro h
    rcases h with ⟨hfits, rfl⟩
    exact ⟨settled, rfl, hfits⟩

theorem Realizes.throw (fault : QueryFault) :
    Realizes subject (throw fault : Check α) fun _ => False := by
  intro settled a
  constructor
  · intro h
    rcases h with ⟨_, heq, _⟩
    cases heq
  · intro h
    rcases h with ⟨_, hfalse⟩
    exact hfalse.elim

theorem Realizes.bind (hm : Realizes subject m R) (hk : ∀ a, Realizes subject (k a) (S a)) :
    Realizes subject (m >>= k) fun b => ∃ a, R a ∧ S a b := by
  intro settled b
  constructor
  · intro h
    rcases h with ⟨settled', heq, hfits⟩
    obtain ⟨a, middle, hma, hkb⟩ := bind_eq_ok_iff.1 heq
    obtain ⟨hmiddle, hS⟩ := (hk a middle b).1 ⟨settled', hkb, hfits⟩
    obtain ⟨hsettled, hR⟩ := (hm settled a).1 ⟨middle, hma, hmiddle⟩
    exact ⟨hsettled, a, hR, hS⟩
  · intro h
    rcases h with ⟨hsettled, a, hR, hS⟩
    obtain ⟨middle, hma, hmiddle⟩ := (hm settled a).2 ⟨hsettled, hR⟩
    obtain ⟨settled', hkb, hfits⟩ := (hk a middle b).2 ⟨hmiddle, hS⟩
    exact ⟨settled', bind_eq_ok_iff.2 ⟨a, middle, hma, hkb⟩, hfits⟩

/-- A condition that has to fail for the walk to go on. -/
theorem Realizes.unless {c : Prop} [Decidable c] {fault : QueryFault}
    (hm : Realizes subject m R) :
    Realizes subject (if c then MonadExcept.throw fault else m) fun a => ¬ c ∧ R a := by
  by_cases hc : c
  · rw [if_pos hc]
    exact (Realizes.throw fault).of_iff (by simp [hc])
  · rw [if_neg hc]
    exact hm.of_iff (by simp [hc])

@[inherit_doc Realizes.unless]
theorem Realizes.unless_bind {c : Prop} [Decidable c] {fault : QueryFault} {k : β → Check α}
    (hm : Realizes subject m R) :
    Realizes subject (if c then (MonadExcept.throw fault : Check β) >>= k else m)
      fun a => ¬ c ∧ R a :=
  hm.unless

theorem Realizes.mapM {f : β → Check α} {R : β → α → Prop} {l : List β}
    (hf : ∀ x ∈ l, Realizes subject (f x) (R x)) :
    Realizes subject (l.mapM f) (List.Forall₂ R l) := by
  induction l with
  | nil =>
    rw [List.mapM_nil]
    exact (Realizes.pure []).of_iff (by simp [eq_comm])
  | cons x l ih =>
    rw [List.mapM_cons]
    have hrest := ih fun y hy => hf y (List.mem_cons_of_mem x hy)
    have hstep := (hf x List.mem_cons_self).bind fun a =>
      hrest.bind fun as => Realizes.pure (a :: as)
    refine hstep.of_iff fun bs => ?_
    rw [List.forall₂_cons_left_iff]
    constructor
    · intro h
      rcases h with ⟨a, ha, as, has, rfl⟩
      exact ⟨a, as, ha, has, rfl⟩
    · intro h
      rcases h with ⟨a, as, ha, has, rfl⟩
      exact ⟨a, ha, as, has, rfl⟩

theorem Realizes.option_mapM {f : β → Check α} {R : β → α → Prop} {o : Option β}
    (hf : ∀ x ∈ o, Realizes subject (f x) (R x)) :
    Realizes subject (o.mapM f) fun r => Option.Rel (fun a x => R x a) r o := by
  cases o with
  | none => exact (Realizes.pure none).of_iff fun r => by cases r <;> simp
  | some x =>
    apply ((hf x rfl).bind fun a => Realizes.pure (some a)).of_iff
    intro r
    cases r <;> simp

end Check

end CampusQuery
