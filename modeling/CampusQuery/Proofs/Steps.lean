import CampusQuery.Proofs.Catalog
import CampusQuery.Proofs.Dataset.Usable
import CampusQuery.Proofs.Storage.Datasets
/-!
What the operations on a data directory do where they succeed, and what calls answer then.
-/

namespace CampusQuery.Engine

open Storage

variable {e e' : Engine} {id : String}

theorem reach_eq_ok_iff {name : String} {u : Unit} :
    e.reach name = .ok u ↔ name.utf8ByteSize ≤ e.longestName := by
  unfold reach
  split_ifs with h <;> simp [h]

/-- The records that are to be stored under a name, if all that is checked before writing allows
it. -/
def addable (e : Engine) (id : String) (kind : Kind) (records : List Record) :
    Except Failure (List Record) := do
  (Dataset.checkId id).mapError .badId
  e.reach (fileName id)
  if Store.contains e.directory id then throw (.conflict id)
  usableRecords kind records

/-- Adding is checking and writing. -/
theorem add_eq_bind (e : Engine) (id : String) (kind : Kind) (records : List Record) :
    e.add id kind records = do
      let usable ← e.addable id kind records
      e.reach (anyTemporaryName id)
      let e := { e with directory := ← Store.put e.directory ⟨id, kind, usable⟩ }
      return (e.list.map (·.id), e) := by
  unfold add addable
  cases (Dataset.checkId id).mapError Failure.badId with
  | error => rfl
  | ok =>
    cases e.reach (fileName id) with
    | error => rfl
    | ok =>
      cases Store.contains e.directory id with
      | true => rfl
      | false => rfl

theorem addable_eq_ok_iff {kind : Kind} {records usable : List Record} :
    e.addable id kind records = .ok usable ↔
      Dataset.checkId id = .ok () ∧ (fileName id).utf8ByteSize ≤ e.longestName ∧
        e.directory.find? (fileName id) = none ∧ Dataset.usable kind records ≠ [] ∧
        usable = Dataset.usable kind records := by
  unfold addable
  constructor
  · intro h
    obtain ⟨_, hcheck, h⟩ := Outcome.bind_eq_ok_iff.1 h
    obtain ⟨_, hreach, h⟩ := Outcome.bind_eq_ok_iff.1 h
    cases hcontains : Store.contains e.directory id with
    | true =>
      rw [hcontains] at h
      cases h
    | false =>
      rw [hcontains] at h
      exact ⟨Outcome.mapError_eq_ok_iff.1 hcheck, reach_eq_ok_iff.1 hreach,
        find?_fileName_of_not_contains hcontains, usableRecords_eq_ok_iff.1 h⟩
  · intro h
    obtain ⟨hcheck, hreach, hfree, husable⟩ := h
    have hin : e.reach (fileName id) = .ok () := reach_eq_ok_iff.2 hreach
    have hcontains : Store.contains e.directory id = false := by
      rw [Store.contains, hfree]
      rfl
    rw [hcheck, hin, hcontains, Outcome.mapError_ok, Outcome.ok_bind, Outcome.ok_bind,
      ← usableRecords_eq_ok_iff.2 husable]
    rfl

/-- What may be added goes behind the rest, if there is room for the temporary name. -/
theorem add_of_addable {id : String} {kind : Kind} {records usable : List Record}
    (h : e.addable id kind records = .ok usable) :
    e.add id kind records = (e.reach (anyTemporaryName id)).map fun () =>
      let e' := { e with directory := e.directory ++ [entryOf ⟨id, kind, usable⟩] }
      (e'.list.map (·.id), e') := by
  obtain ⟨-, -, hfree, -, -⟩ := addable_eq_ok_iff.1 h
  have hput := @put_eq_ok e.directory ⟨id, kind, usable⟩ hfree
  rw [add_eq_bind, h, Outcome.ok_bind, hput]
  cases e.reach (anyTemporaryName id) <;> rfl

/-- A dataset is added under a good name that is free, and its entry goes behind the others. -/
theorem add_eq_ok_iff {kind : Kind} {records : List Record} {ids : List String} :
    e.add id kind records = .ok (ids, e') ↔
      Dataset.checkId id = .ok () ∧ (fileName id).utf8ByteSize ≤ e.longestName ∧
        e.directory.find? (fileName id) = none ∧ Dataset.usable kind records ≠ [] ∧
        (anyTemporaryName id).utf8ByteSize ≤ e.longestName ∧
        e' = { e with directory :=
          e.directory ++ [entryOf ⟨id, kind, Dataset.usable kind records⟩] } ∧
        ids = e'.list.map (·.id) := by
  have hput := @put_eq_ok e.directory ⟨id, kind, Dataset.usable kind records⟩
  rw [add_eq_bind]
  constructor
  · intro h
    obtain ⟨usable, haddable, h⟩ := Outcome.bind_eq_ok_iff.1 h
    obtain ⟨hcheck, hreach, hfree, hne, rfl⟩ := addable_eq_ok_iff.1 haddable
    obtain ⟨_, htemporary, h⟩ := Outcome.bind_eq_ok_iff.1 h
    rw [hput hfree, Outcome.ok_bind] at h
    cases h
    exact ⟨hcheck, hreach, hfree, hne, reach_eq_ok_iff.1 htemporary, rfl, rfl⟩
  · intro h
    obtain ⟨hcheck, hreach, hfree, hne, htemporary, rfl, rfl⟩ := h
    have haddable : e.addable id kind records = .ok (Dataset.usable kind records) :=
      addable_eq_ok_iff.2 ⟨hcheck, hreach, hfree, hne, rfl⟩
    have hin : e.reach (anyTemporaryName id) = .ok () := reach_eq_ok_iff.2 htemporary
    rw [haddable, Outcome.ok_bind, hin, Outcome.ok_bind, hput hfree]
    rfl

/-- A file is taken away under a good name. -/
theorem remove_eq_ok_iff {removed : String} :
    e.remove id = .ok (removed, e') ↔
      Dataset.checkId id = .ok () ∧ (fileName id).utf8ByteSize ≤ e.longestName ∧
        (∃ bytes, e.directory.find? (fileName id) = some (.file bytes)) ∧ removed = id ∧
        e' = { e with directory := e.directory.erase (fileName id) } := by
  have hfile {d : Directory} : Store.remove e.directory id = .ok d ↔
      (∃ bytes, e.directory.find? (fileName id) = some (.file bytes)) ∧
        d = e.directory.erase (fileName id) := by
    rw [Store.remove, Outcome.mapError_eq_ok_iff, Directory.removeFile]
    cases e.directory.find? (fileName id) with
    | none => simp
    | some node => cases node <;> simp [eq_comm]
  unfold remove
  simp only [Outcome.bind_eq_ok_iff, Outcome.mapError_eq_ok_iff, reach_eq_ok_iff, hfile]
  constructor
  · intro h
    rcases h with ⟨_, hcheck, _, hreach, _, ⟨hbytes, rfl⟩, hpure⟩
    cases hpure
    exact ⟨hcheck, hreach, hbytes, rfl, rfl⟩
  · intro h
    rcases h with ⟨hcheck, hreach, hbytes, rfl, rfl⟩
    exact ⟨(), hcheck, (), hreach, _, ⟨hbytes, rfl⟩, rfl⟩

/-- A listing has all datasets if no name of a file is out of reach. -/
theorem list_eq_mergeSort {l : List Dataset} (hlongest : 166 ≤ e.longestName)
    (hentries : e.directory = l.map entryOf)
    (h : ∀ data ∈ l, data.id ≠ "" ∧ data.records.length < 2 ^ 64) :
    e.list = (l.map Dataset.info).mergeSort fun i i' => (compare i.id i'.id).isLE := by
  have hreach : e.directory.filter (fun entry => entry.1.utf8ByteSize ≤ e.longestName) =
      l.map entryOf := by
    rw [hentries, List.filter_eq_self]
    intro entry hentry
    obtain ⟨data, -, rfl⟩ := List.mem_map.1 hentry
    have hname := utf8ByteSize_fileName_le data.id
    exact decide_eq_true (show (fileName data.id).utf8ByteSize ≤ e.longestName by omega)
  rw [list, hreach, Store.list, filterMap_info?_map_entryOf h]

/-! ### Leftovers -/

/-- The engine without the leftovers. -/
def kept (e : Engine) : Engine :=
  { e with directory := e.directory.kept }

/-- All leftovers are files within reach. -/
def Sweepable (e : Engine) : Prop :=
  ∀ entry ∈ e.directory, isLeftover entry.1 = true →
    entry.1.utf8ByteSize ≤ e.longestName ∧ ∃ bytes, entry.2 = .file bytes

theorem removable_eq_ok_iff {entry : String × Node} {u : Unit} :
    e.removable entry = .ok u ↔
      entry.1.utf8ByteSize ≤ e.longestName ∧ ∃ bytes, entry.2 = .file bytes := by
  obtain ⟨name, node⟩ := entry
  unfold removable
  rw [Outcome.bind_eq_ok_iff]
  cases node with
  | file bytes =>
    exact ⟨fun ⟨_, hreach, _⟩ => ⟨reach_eq_ok_iff.1 hreach, bytes, rfl⟩,
      fun ⟨hname, _⟩ => ⟨(), reach_eq_ok_iff.2 hname, rfl⟩⟩
  | folder entries =>
    refine iff_of_false ?_ (by simp)
    rintro ⟨_, -, h⟩
    cases h

theorem forM_removable_eq_ok_iff :
    (e.directory.filter fun entry => isLeftover entry.1).forM e.removable = .ok () ↔
      e.Sweepable := by
  simp only [Outcome.forM_eq_ok_iff, List.mem_filter, removable_eq_ok_iff, and_imp]
  rfl

/-- An engine is rid of all leftovers, if they are files within reach. -/
theorem swept_eq_ok_iff : e.swept = .ok e' ↔ e.Sweepable ∧ e' = e.kept := by
  unfold swept
  simp only [Outcome.bind_eq_ok_iff, sweep_eq_ok_iff]
  constructor
  · rintro ⟨_, hall, _, ⟨-, rfl⟩, hkept⟩
    cases hkept
    exact ⟨forM_removable_eq_ok_iff.1 hall, rfl⟩
  · rintro ⟨h, rfl⟩
    exact ⟨(), forM_removable_eq_ok_iff.2 h, _,
      ⟨fun entry hentry hleftover => (h entry hentry hleftover).2, rfl⟩, rfl⟩

/-- Nothing but leftovers is swept away. -/
theorem swept_eq_ok (h : e.swept = .ok e') :
    e' = { e with directory := e.directory.filter fun entry => !isLeftover entry.1 } :=
  (swept_eq_ok_iff.1 h).2

/-- Without leftovers, an engine stays as it is. -/
theorem swept_eq_self (h : ∀ entry ∈ e.directory, isLeftover entry.1 = false) :
    e.swept = .ok e := by
  refine swept_eq_ok_iff.2 ⟨fun entry hentry hleftover => ?_, ?_⟩
  · rw [h entry hentry] at hleftover
    cases hleftover
  · rw [kept, Directory.kept_eq_self h]

/-! ### Calls -/

section

variable {kind : Kind} {records usable : List Record}

/-- What may be added is added if there is room for the temporary name. -/
theorem answer_of_addable_eq_ok (haddable : e.addable id kind records = .ok usable)
    (hreach : (anyTemporaryName id).utf8ByteSize ≤ e.longestName) :
    let e' := { e with directory := e.directory ++ [entryOf ⟨id, kind, usable⟩] }
    e.answer (.add id kind records) = (.added (e'.list.map (·.id)), e') := by
  have hin : e.reach (anyTemporaryName id) = .ok () := reach_eq_ok_iff.2 hreach
  rw [answer, add_of_addable haddable, hin]
  rfl

/-- The usable records of a kind go to a file of their own. -/
theorem answer_add (hcheck : Dataset.checkId id = .ok ())
    (hreach : (fileName id).utf8ByteSize ≤ e.longestName)
    (htemporary : (anyTemporaryName id).utf8ByteSize ≤ e.longestName)
    (hfree : e.directory.find? (fileName id) = none)
    (husable : Dataset.usable kind records = usable) (hne : usable ≠ []) :
    (e.answer (.add id kind records)).2 =
      { e with directory := e.directory ++ [entryOf ⟨id, kind, usable⟩] } := by
  subst husable
  have haddable := addable_eq_ok_iff.2 ⟨hcheck, hreach, hfree, hne, rfl⟩
  rw [answer_of_addable_eq_ok haddable htemporary]

end

/-- Without leftovers, a new engine finds the directory as it is. -/
theorem answer_reopen (h : ∀ entry ∈ e.directory, isLeftover entry.1 = false) (limit : Nat) :
    e.answer (.reopen limit) = (.opened, { e with limit }) := by
  have hswept : swept { e with limit } = .ok { e with limit } := swept_eq_self h
  rw [answer, hswept]

end CampusQuery.Engine
