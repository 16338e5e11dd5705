import CampusQuery.Proofs.Answer.Order
import CampusQuery.Proofs.Utf8
/-!
What the sort order of a query says of its answer.

Two rows are decided by the first key on which they do not tie. Sorting leaves rows that tie on all
keys as they were, so more keys at the end are an earlier pass of sorting, and the opposite
direction is the other one seen from the end of the list.
-/

namespace CampusQuery.SortOrder

/-- A cell is below another: a missing one below all that are there, numbers by their places, texts
by their code points, and every number below every text. -/
inductive Below : Option Cell → Option Cell → Prop
  | missing (y : Cell) : Below none (some y)
  | numbers {x y : Double} (h : x.ordinal < y.ordinal) :
      Below (some (.number x)) (some (.number y))
  | number_text (x : Double) (t : String) : Below (some (.number x)) (some (.text t))
  | texts {s t : String} (h : s.toList.map Char.toNat < t.toList.map Char.toNat) :
      Below (some (.text s)) (some (.text t))

/-- Under the first key on which the rows do not tie, the cell of the one is below the other's. -/
def Precedes (keys : List String) (a b : Row) : Prop :=
  ∃ front key back, keys = front ++ key :: back ∧ Ties front a b ∧ Below (a.get? key) (b.get? key)

/-! ### Which row is first -/

theorem map_toNat_lt_iff {s t : List Char} : s.map Char.toNat < t.map Char.toNat ↔ s < t := by
  refine ⟨fun h => ?_, List.map_lt fun _ _ => id⟩
  induction s generalizing t with
  | nil =>
    cases t with
    | nil => cases h
    | cons d t => exact List.nil_lt_cons d t
  | cons c s ih =>
    cases t with
    | nil => cases h
    | cons d t =>
      simp only [List.map_cons, List.cons_lt_cons_iff] at h ⊢
      exact h.imp id (And.imp Char.toNat_inj.1 ih)

theorem compare_text_eq_lt_iff {s t : String} :
    compare s t = .lt ↔ s.toList.map Char.toNat < t.toList.map Char.toNat := by
  rw [map_toNat_lt_iff]
  exact compareOfLessAndEq_eq_lt.trans String.lt_iff

theorem compareCells_eq_lt_iff {x y : Option Cell} : compareCells x y = .lt ↔ Below x y := by
  constructor
  · intro h
    cases x with
    | none =>
      cases y with
      | none => cases h
      | some y => exact .missing y
    | some x =>
      cases y with
      | none => cases h
      | some y =>
        cases x with
        | number x =>
          cases y with
          | number y => exact .numbers (Int.compare_eq_lt.1 h)
          | text t => exact .number_text x t
        | text s =>
          cases y with
          | number y => cases h
          | text t => exact .texts (compare_text_eq_lt_iff.1 h)
  · intro h
    cases h with
    | missing y => rfl
    | numbers h => exact Int.compare_eq_lt.2 h
    | number_text x t => rfl
    | texts h => exact compare_text_eq_lt_iff.2 h

theorem precedes_cons {key : String} {keys : List String} {a b : Row} :
    Precedes (key :: keys) a b ↔
      Below (a.get? key) (b.get? key) ∨ Ties [key] a b ∧ Precedes keys a b := by
  constructor
  · intro h
    obtain ⟨front, first, back, hkeys, hfront, hfirst⟩ := h
    rcases List.cons_eq_append_iff.1 hkeys with ⟨rfl, hrest⟩ | ⟨front, rfl, rfl⟩
    · cases hrest
      exact .inl hfirst
    · rw [Ties, List.forall_mem_cons] at hfront
      rw [Ties, List.forall_mem_singleton]
      exact .inr ⟨hfront.1, front, first, back, rfl, hfront.2, hfirst⟩
  · intro h
    rcases h with h | ⟨htie, front, first, back, rfl, hfront, hfirst⟩
    · exact ⟨[], key, keys, rfl, List.forall_mem_nil _, h⟩
    · rw [Ties, List.forall_mem_singleton] at htie
      exact ⟨key :: front, first, back, rfl, List.forall_mem_cons.2 ⟨htie, hfront⟩, hfirst⟩

theorem compareKeys_eq_lt_iff {keys : List String} {a b : Row} :
    compareKeys keys a b = .lt ↔ Precedes keys a b := by
  induction keys with
  | nil =>
    constructor
    · intro h
      cases h
    · intro h
      obtain ⟨front, key, back, hkeys, -⟩ := h
      simp at hkeys
  | cons key keys ih =>
    rw [compareKeys, Ordering.then_eq_lt, compareCells_eq_lt_iff, compareCells_eq_eq_iff, ih,
      precedes_cons, Ties, List.forall_mem_singleton]

/-! ### Passes of sorting -/

theorem compareKeys_append (keys keys' : List String) (a b : Row) :
    compareKeys (keys ++ keys') a b = (compareKeys keys a b).then (compareKeys keys' a b) := by
  induction keys with
  | nil => rfl
  | cons key keys ih => rw [List.cons_append, compareKeys, ih, compareKeys, Ordering.then_assoc]

theorem compareRows_append (direction : Direction) (keys keys' : List String) :
    compareRows ⟨direction, keys ++ keys'⟩ = fun a b =>
      (compareRows ⟨direction, keys⟩ a b).then (compareRows ⟨direction, keys'⟩ a b) := by
  funext a b
  cases direction with
  | up => exact compareKeys_append keys keys' a b
  | down =>
    change (compareKeys (keys ++ keys') a b).swap = _
    rw [compareKeys_append, Ordering.swap_then]
    rfl

theorem compareRows_down (keys : List String) :
    compareRows ⟨.down, keys⟩ = fun a b => compareRows ⟨.up, keys⟩ b a := by
  funext a b
  exact Std.OrientedCmp.eq_swap.symm

theorem stablySorted_sort (order : SortOrder) (rows : List Row) :
    StablySorted order.compareRows rows (order.sort rows) :=
  stablySorted_mergeSort rows

/-- The last keys can be sorted by first. -/
theorem sort_append (direction : Direction) (keys keys' : List String) (rows : List Row) :
    sort ⟨direction, keys ++ keys'⟩ rows =
      sort ⟨direction, keys⟩ (sort ⟨direction, keys'⟩ rows) := by
  refine (stablySorted_sort _ rows).unique ?_
  rw [compareRows_append]
  exact (stablySorted_sort ⟨direction, keys'⟩ rows).then (stablySorted_sort _ _)

theorem sort_down (keys : List String) (rows : List Row) :
    sort ⟨.down, keys⟩ rows = (sort ⟨.up, keys⟩ rows.reverse).reverse := by
  refine (stablySorted_sort _ rows).unique ?_
  rw [compareRows_down]
  exact (stablySorted_sort ⟨.up, keys⟩ rows.reverse).reverse

/-- Comparing rows is a total preorder, decided by the first key on which the rows do not tie, and
downwards with the rows exchanged; texts are compared as their bytes are. Sorting puts the rows in
this order and keeps those that tie on all keys as they were. More keys are an earlier pass, and
downwards is upwards from the end. -/
theorem sort_lawful (order : SortOrder) (rows : List Row) :
    (∀ a, order.compareRows a a = .eq) ∧
    (∀ a b, order.compareRows b a = (order.compareRows a b).swap) ∧
    (∀ a b, (order.compareRows a b).isLE ∨ (order.compareRows b a).isLE) ∧
    (∀ a b c, (order.compareRows a b).isLE → (order.compareRows b c).isLE →
      (order.compareRows a c).isLE) ∧
    (∀ a b, order.compareRows a b = .eq ↔ Ties order.keys a b) ∧
    (∀ a b, compareRows ⟨.up, order.keys⟩ a b = .lt ↔ Precedes order.keys a b) ∧
    (∀ a b, compareRows ⟨.down, order.keys⟩ a b = .lt ↔ Precedes order.keys b a) ∧
    (∀ s t, (Cell.text s).compare (.text t) = compare (utf8 s) (utf8 t)) ∧
    StablySorted order.compareRows rows (order.sort rows) ∧
    (∀ keys', sort ⟨order.direction, order.keys ++ keys'⟩ rows =
      order.sort (sort ⟨order.direction, keys'⟩ rows)) ∧
    sort ⟨.down, order.keys⟩ rows = (sort ⟨.up, order.keys⟩ rows.reverse).reverse := by
  refine ⟨fun _ => Std.ReflCmp.compare_self, fun _ _ => Std.OrientedCmp.eq_swap, fun a b => ?_,
    fun _ _ _ => Std.TransCmp.isLE_trans, fun _ _ => compareRows_eq_eq_iff,
    fun _ _ => compareKeys_eq_lt_iff, fun a b => ?_, fun s t => (compare_utf8 s t).symm,
    stablySorted_sort order rows, fun keys' => sort_append order.direction order.keys keys' rows,
    sort_down order.keys rows⟩
  · exact Bool.or_eq_true_iff.1 (isLE_total a b)
  · rw [compareRows_down]
    exact compareKeys_eq_lt_iff

/-- A missing cell, both zeros, a NaN, and texts whose order is another one in UTF-16. -/
theorem sort_lawful_of_mixed_cells :
    let row (cell : Cell) (n : Int) : Row := ⟨[("a", cell), ("n", .number (.ofInt n))]⟩
    let missing : Row := ⟨[("n", .number (.ofInt 1))]⟩
    let nan := row (.number ⟨0x7FF8000000000000⟩) 4
    let text := row (.text "\uFFFD") 5
    let rows := [missing, row (.number .zero) 2, row (.number ⟨0x8000000000000000⟩) 3, nan, text,
      row (.text "𐀀") 6]
    let order : SortOrder := ⟨.up, ["a"]⟩
    (order.compareRows missing nan).isLE ∧ (order.compareRows nan text).isLE ∧
      (order.compareRows missing text).isLE ∧ Precedes ["a"] text (row (.text "𐀀") 6) ∧
      order.sort rows = rows ∧ sort ⟨.down, ["a"]⟩ rows.reverse = rows.reverse := by
  intro row missing nan text rows order
  obtain ⟨-, -, -, htrans, -, hup, -, -, -, -, hdown⟩ := sort_lawful order rows.reverse
  have hmissing : (order.compareRows missing nan).isLE := by decide
  have hnan : (order.compareRows nan text).isLE := by decide
  have hsort : order.sort rows = rows := List.mergeSort_of_pairwise (by decide)
  refine ⟨hmissing, hnan, htrans _ _ _ hmissing hnan, (hup _ _).1 (by decide), hsort, ?_⟩
  rw [List.reverse_reverse] at hdown
  exact hdown.trans (congrArg List.reverse hsort)

end CampusQuery.SortOrder
