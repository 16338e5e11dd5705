import CampusQuery.Proofs.Query.Grammar
import CampusQuery.Proofs.Query.Walk
import Mathlib.Data.List.TakeWhile
/-!
Keys of fields, and the shapes of values that the parts of a query share.
-/

namespace CampusQuery

theorem forall₂_eq_and_iff {α β : Type} {f : β → α} {p : β → Prop} {l : List α} {l' : List β} :
    List.Forall₂ (fun a b => a = f b ∧ p b) l l' ↔ l = l'.map f ∧ ∀ b ∈ l', p b := by
  induction l' generalizing l with
  | nil => simp
  | cons b l' ih =>
    rw [List.forall₂_cons_right_iff]
    constructor
    · intro h
      rcases h with ⟨a, l, ⟨rfl, hb⟩, hrest, rfl⟩
      obtain ⟨rfl, hl'⟩ := ih.1 hrest
      exact ⟨rfl, by simpa [hb] using hl'⟩
    · intro h
      rcases h with ⟨rfl, hp⟩
      have hrest := ih.2 ⟨rfl, fun b hb => hp b (List.mem_cons_of_mem _ hb)⟩
      exact ⟨f b, l'.map f, ⟨rfl, hp b List.mem_cons_self⟩, hrest, rfl⟩

theorem drop_length_takeWhile {α : Type} (p : α → Bool) (l : List α) :
    l.drop (l.takeWhile p).length = l.dropWhile p := by
  induction l with
  | nil => rfl
  | cons a l ih =>
    by_cases ha : p a = true
    · simpa [ha] using ih
    · simp [ha]

/-- A list is cut before the first element that fails the test. -/
theorem takeWhile_dropWhile_eq_iff {α : Type} {p : α → Bool} {l front back : List α} {a : α} :
    l.takeWhile p = front ∧ l.dropWhile p = a :: back ↔
      l = front ++ a :: back ∧ (∀ x ∈ front, p x = true) ∧ p a = false := by
  constructor
  · intro h
    rcases h with ⟨rfl, hback⟩
    refine ⟨?_, fun x hx => List.mem_takeWhile_imp hx, ?_⟩
    · rw [← hback, List.takeWhile_append_dropWhile]
    · have hhead := List.head_dropWhile_not p (l := l) (by simp [hback])
      simpa [hback] using hhead
  · intro h
    rcases h with ⟨rfl, hfront, ha⟩
    rw [List.takeWhile_append_of_pos hfront, List.dropWhile_append_of_pos hfront]
    simp [ha]

theorem Check.splitKey?_eq_some_iff {key name field : String} :
    Check.splitKey? key = some (name, field) ↔
      key = name ++ "_" ++ field ∧ delimiter ∉ name.toList := by
  have hkey : key = name ++ "_" ++ field ↔
      key.toList = name.toList ++ delimiter :: field.toList := by
    rw [← String.toList_inj]
    simp [delimiter]
  have hname : delimiter ∉ name.toList ↔
      (∀ c ∈ name.toList, decide (c ≠ delimiter) = true) ∧
        decide (delimiter ≠ delimiter) = false := by
    constructor
    · exact fun h => ⟨fun c hc => decide_eq_true fun heq => h (heq ▸ hc), by decide⟩
    · exact fun h hmem => of_decide_eq_true (h.1 delimiter hmem) rfl
  rw [hkey, hname, ← takeWhile_dropWhile_eq_iff, Check.splitKey?]
  rw [drop_length_takeWhile]
  generalize hfront : key.toList.takeWhile (· ≠ delimiter) = front
  cases hback : key.toList.dropWhile (· ≠ delimiter) with
  | nil => simp
  | cons c rest =>
    have hc : c = delimiter := by
      have hcut := (takeWhile_dropWhile_eq_iff.1 ⟨hfront, hback⟩).2.2
      exact of_not_not (of_decide_eq_false hcut)
    rw [hc]
    simp only [Option.some.injEq, Prod.mk.injEq, List.cons.injEq, true_and]
    constructor
    · intro h
      rcases h with ⟨rfl, rfl⟩
      simp
    · intro h
      rcases h with ⟨rfl, rfl⟩
      simp

/-! ### Keys of fields -/

theorem Field.ofKey?_eq_some_iff {key : String} {field : Field} :
    Field.ofKey? key = some field ↔ key = field.key := by
  constructor
  · intro h
    have hkey := List.find?_some h
    exact (beq_iff_eq.1 hkey).symm
  · rintro rfl
    exact Field.ofKey?_key field

namespace Check

variable {subject : Subject} {settled settled' : Option Subject}

/-- The first key settles the subject, and later ones have to be of the settled one. -/
theorem fieldKey_of_split {key name : String} {field : Field}
    (hsplit : splitKey? key = some (name, field.key)) (hblank : Text.allBlank name = false) :
    fieldKey key settled =
      match settled with
      | none => .ok (field, some ⟨name, field.kind⟩)
      | some other =>
        if other.dataset ≠ name then .error (.secondDataset other.dataset name)
        else if other.kind ≠ field.kind then .error (.foreignField field other.kind)
        else .ok (field, some other) := by
  unfold fieldKey
  rw [hsplit]
  simp only [hblank, Field.ofKey?_key, Bool.false_eq_true, if_false]
  cases settled with
  | none => rfl
  | some other =>
    rw [get_bind_apply]
    by_cases hname : other.dataset = name
    · by_cases hkind : other.kind = field.kind
      · simp only [hname, hkind, ne_eq, not_true_eq_false, if_false]
        rfl
      · simp only [hname, hkind, ne_eq, not_true_eq_false, not_false_eq_true, if_true, if_false]
        rfl
    · simp only [hname, ne_eq, not_false_eq_true, if_true]
      rfl

theorem exists_split_of_fieldKey {key : String} {field : Field}
    (h : fieldKey key settled = .ok (field, settled')) :
    ∃ name f, splitKey? key = some (name, Field.key f) ∧ Text.allBlank name = false := by
  unfold fieldKey at h
  cases hsplit : splitKey? key with
  | none => rw [hsplit] at h; cases h
  | some parts =>
    obtain ⟨name, fieldName⟩ := parts
    rw [hsplit] at h
    cases hblank : Text.allBlank name with
    | true => simp only [hblank, if_true] at h; cases h
    | false =>
      cases hfield : Field.ofKey? fieldName with
      | none => simp only [hblank, hfield] at h; cases h
      | some f =>
        obtain rfl := Field.ofKey?_eq_some_iff.1 hfield
        exact ⟨name, f, rfl, hblank⟩

/-- A key is taken for the field that it names, and its subject is settled from then on. -/
theorem fieldKey_eq_ok_iff {key : String} {field : Field} :
    fieldKey key settled = .ok (field, settled') ↔
      ∃ subject : Subject, settled' = some subject ∧ subject.Fits settled ∧
        subject.Names key field := by
  constructor
  · intro h
    obtain ⟨name, f, hsplit, hblank⟩ := exists_split_of_fieldKey h
    obtain ⟨rfl, hname⟩ := splitKey?_eq_some_iff.1 hsplit
    rw [fieldKey_of_split hsplit hblank] at h
    cases settled with
    | none =>
      cases h
      exact ⟨⟨name, field.kind⟩, rfl, by simp [Subject.Fits], rfl, rfl, hblank, hname⟩
    | some other =>
      obtain ⟨dataset, kind⟩ := other
      by_cases hdataset : dataset = name
      · by_cases hkind : kind = f.kind
        · subst hdataset hkind
          simp only [ne_eq, not_true_eq_false, if_false] at h
          cases h
          exact ⟨_, rfl, by simp [Subject.Fits], rfl, rfl, hblank, hname⟩
        · simp [hdataset, hkind] at h
      · simp [hdataset] at h
  · intro h
    rcases h with ⟨subject, rfl, hfits, rfl, hkind, hblank, hname⟩
    rw [fieldKey_of_split (splitKey?_eq_some_iff.2 ⟨rfl, hname⟩) hblank]
    cases settled with
    | none => rw [hkind]
    | some other =>
      obtain rfl := hfits other rfl
      simp [hkind]

theorem fieldKey_realizes (key : String) :
    Realizes subject (fieldKey key) (subject.Names key) := by
  intro settled field
  constructor
  · intro h
    rcases h with ⟨settled', h, hfits⟩
    obtain ⟨other, rfl, hother, hnames⟩ := fieldKey_eq_ok_iff.1 h
    obtain rfl := hfits other rfl
    exact ⟨hother, hnames⟩
  · intro h
    rcases h with ⟨hfits, hnames⟩
    exact ⟨some subject, fieldKey_eq_ok_iff.2 ⟨subject, rfl, hfits, hnames⟩, by simp [Subject.Fits]⟩

/-! ### Shapes -/

theorem members_realizes (part : QueryPart) (j : Json) :
    Realizes subject (members part j) fun entries => j = .object entries := by
  cases j with
  | object entries => exact (Realizes.pure entries).of_iff (by simp)
  | _ => exact (Realizes.throw _).of_iff (by simp)

theorem member_realizes (part : QueryPart) (j : Json) :
    Realizes subject (member part j) fun entry => j = .object [entry] := by
  cases j with
  | object entries =>
    match entries with
    | [entry] => exact (Realizes.pure entry).of_iff (by simp)
    | [] | _ :: _ :: _ => exact (Realizes.throw _).of_iff (by simp)
  | _ => exact (Realizes.throw _).of_iff (by simp)

theorem someItems_realizes (part : QueryPart) (j : Json) :
    Realizes subject (someItems part j) fun items => j = .array items ∧ items ≠ [] := by
  cases j with
  | array items =>
    cases items with
    | nil => exact (Realizes.throw _).of_iff (by simp)
    | cons item items =>
      exact (Realizes.pure (item :: items)).of_iff (by simp +contextual [eq_comm])
  | _ => exact (Realizes.throw _).of_iff (by simp)

theorem textItem_realizes (part : QueryPart) (item : Json) :
    Realizes subject
      (match item with
        | .string s => (pure s : Check String)
        | _ => throw (.entryNotText part))
      fun s => item = .string s := by
  cases item with
  | string s => exact (Realizes.pure s).of_iff (by simp)
  | _ => exact (Realizes.throw _).of_iff (by simp)

theorem someTexts_realizes (part : QueryPart) (j : Json) :
    Realizes subject (someTexts part j) fun texts =>
      j = .array (texts.map Json.string) ∧ texts ≠ [] := by
  have hmap (items : List Json) (texts : List String) :
      List.Forall₂ (fun item s => item = Json.string s) items texts ↔
        items = texts.map Json.string := by
    rw [← List.forall₂_eq_eq_eq, List.forall₂_map_right_iff]
  apply ((someItems_realizes part j).bind fun items =>
    Realizes.mapM fun item _ => textItem_realizes part item).of_iff
  intro texts
  simp only [hmap]
  constructor
  · intro h
    rcases h with ⟨_, ⟨rfl, hne⟩, rfl⟩
    exact ⟨rfl, by simpa using hne⟩
  · intro h
    rcases h with ⟨rfl, hne⟩
    exact ⟨_, ⟨rfl, by simpa using hne⟩, rfl⟩

end Check

end CampusQuery
