import Mathlib.Data.List.Forall2
/-!
Steps that succeed: what is known of the outcome of a sequence of steps that may fail.
-/

namespace CampusQuery.Outcome

variable {ε ε' α β γ : Type}

theorem exists_of_forall₂_of_mem {R : α → β → Prop} {l : List α} {l' : List β}
    (h : List.Forall₂ R l l') {b : β} (hb : b ∈ l') : ∃ a ∈ l, R a b := by
  induction h with
  | nil => simp at hb
  | cons hab _ ih =>
    rcases List.mem_cons.1 hb with rfl | hb
    · exact ⟨_, List.mem_cons_self, hab⟩
    · obtain ⟨a, ha, heq⟩ := ih hb
      exact ⟨a, List.mem_cons_of_mem _ ha, heq⟩

theorem ok_bind (a : α) (k : α → Except ε β) : (Except.ok a >>= k) = k a :=
  rfl

theorem mapError_ok (a : α) (f : ε → ε') : (Except.ok a : Except ε α).mapError f = .ok a :=
  rfl

theorem bind_eq_ok_iff {m : Except ε α} {k : α → Except ε β} {b : β} :
    (m >>= k) = .ok b ↔ ∃ a, m = .ok a ∧ k a = .ok b := by
  cases m with
  | error e => simp [bind, Except.bind]
  | ok a => simp [bind, Except.bind]

theorem mapError_eq_ok_iff {m : Except ε α} {f : ε → ε'} {a : α} :
    m.mapError f = .ok a ↔ m = .ok a := by
  cases m <;> simp [Except.mapError]

theorem map_eq_ok_iff {m : Except ε α} {f : α → β} {b : β} :
    m.map f = .ok b ↔ ∃ a, m = .ok a ∧ f a = b := by
  cases m <;> simp [Except.map]

theorem toOption_eq_some_iff {m : Except ε α} {a : α} : m.toOption = some a ↔ m = .ok a := by
  cases m <;> simp [Except.toOption]

/-- What every step preserves holds at the end. -/
theorem foldlM_induction {f : β → α → Except ε β} {P : β → Prop} {l : List α} {b b' : β}
    (hstart : P b) (hstep : ∀ a ∈ l, ∀ b b', P b → f b a = .ok b' → P b')
    (h : l.foldlM f b = .ok b') : P b' := by
  induction l generalizing b with
  | nil =>
    cases h
    exact hstart
  | cons a l ih =>
    rw [List.foldlM_cons] at h
    obtain ⟨middle, hmiddle, hrest⟩ := bind_eq_ok_iff.1 h
    exact ih (hstep a List.mem_cons_self b middle hstart hmiddle)
      (fun a' ha' => hstep a' (List.mem_cons_of_mem a ha')) hrest

theorem mapM_eq_ok_iff {f : α → Except ε β} {l : List α} {l' : List β} :
    l.mapM f = .ok l' ↔ List.Forall₂ (fun a b => f a = .ok b) l l' := by
  induction l generalizing l' with
  | nil => simp [pure, Except.pure, eq_comm]
  | cons a l ih =>
    rw [List.mapM_cons, List.forall₂_cons_left_iff, bind_eq_ok_iff]
    refine exists_congr fun b => ?_
    rw [bind_eq_ok_iff]
    constructor
    · intro h
      rcases h with ⟨hb, bs, hbs, hpure⟩
      cases hpure
      exact ⟨bs, hb, ih.1 hbs, rfl⟩
    · intro h
      rcases h with ⟨bs, hb, hbs, rfl⟩
      exact ⟨hb, bs, ih.2 hbs, rfl⟩

theorem mapM_eq_ok_map {f : α → Except ε β} {g : α → β} {l : List α}
    (h : ∀ a ∈ l, f a = .ok (g a)) : l.mapM f = .ok (l.map g) :=
  mapM_eq_ok_iff.2 (List.forall₂_map_right_iff.2 (List.forall₂_same.2 h))

theorem exists_of_mem_mapM_ok {f : α → Except ε β} {l : List α} {l' : List β}
    (h : l.mapM f = .ok l') {b : β} (hb : b ∈ l') : ∃ a ∈ l, f a = .ok b :=
  exists_of_forall₂_of_mem (mapM_eq_ok_iff.1 h) hb

theorem forM_eq_ok_iff {f : α → Except ε Unit} {l : List α} :
    l.forM f = .ok () ↔ ∀ a ∈ l, f a = .ok () := by
  induction l with
  | nil => simp [pure, Except.pure]
  | cons a l ih =>
    rw [List.forall_mem_cons, ← ih, List.forM, bind_eq_ok_iff]
    constructor
    · rintro ⟨⟨⟩, hfirst, hrest⟩
      exact ⟨hfirst, hrest⟩
    · rintro ⟨hfirst, hrest⟩
      exact ⟨(), hfirst, hrest⟩

/-- One step that fails is enough. -/
theorem exists_mapM_eq_error {f : α → Except ε β} {l : List α} {a : α} (ha : a ∈ l)
    (h : ∀ b, f a ≠ .ok b) : ∃ e, l.mapM f = .error e := by
  cases hl : l.mapM f with
  | error e => exact ⟨e, rfl⟩
  | ok l' =>
    obtain ⟨b, -, hb⟩ := exists_of_forall₂_of_mem (mapM_eq_ok_iff.1 hl).flip ha
    exact absurd hb (h b)

/-! ### Reasons to fail -/

/-- If the steps fail, it is for a reason of this kind. -/
def FailsOnly (P : ε → Prop) (m : Except ε α) : Prop :=
  ∀ e, m = .error e → P e

namespace FailsOnly

variable {P : ε → Prop}

theorem ok (a : α) : FailsOnly P (.ok a : Except ε α) :=
  nofun

theorem error {e : ε} (h : P e) : FailsOnly P (.error e : Except ε α) := by
  rintro _ ⟨⟩
  exact h

theorem bind {m : Except ε α} (hm : FailsOnly P m) {k : α → Except ε β}
    (hk : ∀ a, FailsOnly P (k a)) : FailsOnly P (m >>= k) := by
  cases m with
  | error e => exact error (hm e rfl)
  | ok a => exact hk a

theorem map {m : Except ε α} (h : FailsOnly P m) (f : α → β) : FailsOnly P (m.map f) := by
  cases m with
  | error e => exact error (h e rfl)
  | ok a => exact ok (f a)

theorem foldlM {f : β → α → Except ε β} (h : ∀ b a, FailsOnly P (f b a)) (l : List α) (b : β) :
    FailsOnly P (l.foldlM f b) := by
  induction l generalizing b with
  | nil => exact ok b
  | cons a l ih =>
    rw [List.foldlM_cons]
    exact (h b a).bind ih

theorem mapM {f : α → Except ε β} (h : ∀ a, FailsOnly P (f a)) (l : List α) :
    FailsOnly P (l.mapM f) := by
  induction l with
  | nil => exact ok []
  | cons a l ih =>
    rw [List.mapM_cons]
    exact (h a).bind fun b => ih.bind fun bs => ok (b :: bs)

end FailsOnly

/-! ### Steps that are alike -/

/-- Two steps that both fail, or both succeed with results that are related. -/
inductive Alike (R : α → β → Prop) : Except ε α → Except ε β → Prop
  | error (e e' : ε) : Alike R (.error e) (.error e')
  | ok {a : α} {b : β} (h : R a b) : Alike R (.ok a) (.ok b)

namespace Alike

variable {R : α → β → Prop}

theorem of_ok_left {a : α} {m : Except ε β} (h : Alike R (.ok a) m) :
    ∃ b, m = .ok b ∧ R a b := by
  cases h with
  | ok h => exact ⟨_, rfl, h⟩

theorem of_ok_right {m : Except ε α} {b : β} (h : Alike R m (.ok b)) :
    ∃ a, m = .ok a ∧ R a b := by
  cases h with
  | ok h => exact ⟨_, rfl, h⟩

theorem bind {δ : Type} {S : γ → δ → Prop} {m : Except ε α} {m' : Except ε β} (h : Alike R m m')
    {k : α → Except ε γ} {k' : β → Except ε δ} (hk : ∀ a b, R a b → Alike S (k a) (k' b)) :
    Alike S (m >>= k) (m' >>= k') := by
  cases h with
  | error e e' => exact .error e e'
  | ok h => exact hk _ _ h

theorem foldlM {ι : Type} {f : α → ι → Except ε α} {f' : β → ι → Except ε β} {l : List ι} {a : α}
    {b : β} (hstart : R a b) (hstep : ∀ i ∈ l, ∀ a b, R a b → Alike R (f a i) (f' b i)) :
    Alike R (l.foldlM f a) (l.foldlM f' b) := by
  induction l generalizing a b with
  | nil => exact .ok hstart
  | cons i l ih =>
    rw [List.foldlM_cons, List.foldlM_cons]
    exact (hstep i List.mem_cons_self a b hstart).bind fun a' b' h =>
      ih h fun j hj => hstep j (List.mem_cons_of_mem i hj)

/-- Steps that are alike one by one are alike in any order. -/
theorem mapM_perm [Nonempty β] {f f' : α → Except ε β} {g : β → γ} {l l' : List α}
    (hperm : l.Perm l') (h : ∀ a ∈ l, Alike (fun b b' => g b = g b') (f a) (f' a)) :
    Alike (fun bs bs' => (bs.map g).Perm (bs'.map g)) (l.mapM f) (l'.mapM f') := by
  by_cases hall : ∀ a ∈ l, ∃ b, f a = .ok b
  · choose! result hresult using hall
    have hother : ∀ a ∈ l, ∃ b, f' a = .ok b ∧ g (result a) = g b :=
      fun a ha => (hresult a ha ▸ h a ha).of_ok_left
    choose! other hresult' heq using hother
    rw [mapM_eq_ok_map hresult, mapM_eq_ok_map fun a ha => hresult' a (hperm.mem_iff.2 ha)]
    refine .ok ?_
    rw [List.map_map, List.map_map]
    exact (List.map_congr_left heq) ▸ hperm.map _
  · push Not at hall
    obtain ⟨a, ha, hfails⟩ := hall
    have hfails' : ∀ b, f' a ≠ .ok b := by
      intro b hb
      obtain ⟨b', hb', -⟩ := (hb ▸ h a ha).of_ok_right
      exact hfails b' hb'
    obtain ⟨e, he⟩ := exists_mapM_eq_error ha hfails
    obtain ⟨e', he'⟩ := exists_mapM_eq_error (hperm.mem_iff.1 ha) hfails'
    rw [he, he']
    exact .error e e'

end Alike

theorem mapM_eq_some_iff {f : α → Option β} {l : List α} {l' : List β} :
    l.mapM f = some l' ↔ List.Forall₂ (fun a b => f a = some b) l l' := by
  induction l generalizing l' with
  | nil => simp [eq_comm]
  | cons a l ih =>
    rw [List.mapM_cons, List.forall₂_cons_left_iff, Option.bind_eq_bind, Option.bind_eq_some_iff]
    refine exists_congr fun b => ?_
    rw [Option.bind_eq_bind, Option.bind_eq_some_iff]
    constructor
    · intro h
      rcases h with ⟨hb, bs, hbs, hpure⟩
      cases hpure
      exact ⟨bs, hb, ih.1 hbs, rfl⟩
    · intro h
      rcases h with ⟨bs, hb, hbs, rfl⟩
      exact ⟨hb, bs, ih.2 hbs, rfl⟩

theorem exists_of_mem_mapM {f : α → Option β} {l : List α} {l' : List β} (h : l.mapM f = some l')
    {b : β} (hb : b ∈ l') : ∃ a ∈ l, f a = some b :=
  exists_of_forall₂_of_mem (mapM_eq_some_iff.1 h) hb

end CampusQuery.Outcome
