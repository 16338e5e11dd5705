import CampusQuery.Proofs.Frame
/-!
Directories that are rid of leftovers.

The file of a dataset is never a leftover, so that no operation on datasets finds one. An engine
whose leftovers are still there and one that is rid of them answer all calls alike.
-/

namespace CampusQuery

open Storage

namespace Storage

theorem isLeftover_iff {name : String} :
    isLeftover name = true ↔ ['.'] <+: name.toList ∧ ['.', 't', 'm', 'p'] <:+ name.toList := by
  rw [isLeftover, Bool.and_eq_true, beq_iff_eq, List.isSuffixOf_iff_suffix, List.head?_eq_some_iff]
  refine and_congr_left fun _ => exists_congr fun rest => ?_
  exact eq_comm

namespace Directory

variable {d : Directory}

theorem find?_kept {name : String} (h : isLeftover name = false) :
    d.kept.find? name = d.find? name := by
  rw [kept, find?_filter d (fun name => !isLeftover name), h]
  rfl

theorem kept_erase (d : Directory) (name : String) :
    kept (d.erase name) = d.kept.erase name :=
  List.filter_comm _ _ d

theorem kept_concat {entry : String × Node} (h : isLeftover entry.1 = false) :
    kept (d ++ [entry]) = d.kept ++ [entry] := by
  rw [kept, List.filter_append, List.filter_cons_of_pos (by simp [h]), List.filter_nil]
  rfl

end Directory

namespace Store

variable (d : Directory) (id : String)

theorem contains_kept : contains d.kept id = contains d id := by
  rw [contains, contains, Directory.find?_kept (isLeftover_fileName id)]

theorem get_kept : get d.kept id = get d id := by
  rw [get, get, Directory.read, Directory.read, Directory.find?_kept (isLeftover_fileName id)]

/-- Taking away a dataset and taking away the leftovers can change places. -/
theorem remove_kept : remove d.kept id = (remove d id).map Directory.kept := by
  rw [remove, remove, Directory.removeFile, Directory.removeFile,
    Directory.find?_kept (isLeftover_fileName id)]
  cases d.find? (fileName id) with
  | none => rfl
  | some node =>
    cases node with
    | folder entries => rfl
    | file bytes => exact congrArg Except.ok (Directory.kept_erase d (fileName id)).symm

theorem list_kept : list d.kept = list d := by
  rw [Directory.kept, list_filter (fun name => !isLeftover name), List.filter_eq_self]
  intro info _
  rw [isLeftover_fileName]
  rfl

end Store

end Storage

namespace Engine

variable {e : Engine}

theorem kept_kept (e : Engine) : e.kept.kept = e.kept := by
  rw [kept, kept, Directory.kept_kept]

theorem sweepable_kept (e : Engine) : e.kept.Sweepable := by
  intro entry hentry hleftover
  rw [(Directory.mem_kept.1 hentry).2] at hleftover
  cases hleftover

/-! ### Calls -/

theorem list_kept (e : Engine) : e.kept.list = e.list := by
  have hcomm : e.kept.directory.filter (fun entry => entry.1.utf8ByteSize ≤ e.longestName) =
      Directory.kept (e.directory.filter fun entry => entry.1.utf8ByteSize ≤ e.longestName) :=
    List.filter_comm _ _ e.directory
  rw [list, list]
  change Store.list (e.kept.directory.filter fun entry => entry.1.utf8ByteSize ≤ e.longestName) = _
  rw [hcomm, Store.list_kept]

theorem query_kept (e : Engine) (j : Json) : e.kept.query j = e.query j := by
  have hget (id : String) : Store.get e.kept.directory id = Store.get e.directory id :=
    Store.get_kept e.directory id
  simp only [query, hget]
  rfl

theorem remove_kept (e : Engine) (id : String) :
    e.kept.remove id = (e.remove id).map fun removed => (removed.1, removed.2.kept) := by
  have hremove : Store.remove e.kept.directory id =
      (Store.remove e.directory id).map Directory.kept := Store.remove_kept e.directory id
  have hreach : e.kept.reach (fileName id) = e.reach (fileName id) := rfl
  unfold remove
  rw [hremove, hreach]
  cases Dataset.checkId id with
  | error fault => rfl
  | ok =>
    cases e.reach (fileName id) with
    | error failure => rfl
    | ok =>
      cases Store.remove e.directory id with
      | error failure => rfl
      | ok d => rfl

theorem addable_kept (e : Engine) (id : String) (kind : Kind) (records : List Record) :
    e.kept.addable id kind records = e.addable id kind records := by
  have hcontains : Store.contains e.kept.directory id = Store.contains e.directory id :=
    Store.contains_kept e.directory id
  simp only [addable, hcontains]
  rfl

theorem add_kept (e : Engine) (id : String) (kind : Kind) (records : List Record) :
    e.kept.add id kind records =
      (e.add id kind records).map fun added => (added.1, added.2.kept) := by
  cases haddable : e.addable id kind records with
  | error failure =>
    rw [add_eq_bind, add_eq_bind, addable_kept, haddable]
    rfl
  | ok usable =>
    have hname : isLeftover (entryOf ⟨id, kind, usable⟩).1 = false := isLeftover_fileName id
    have hkept : kept { e with directory := e.directory ++ [entryOf ⟨id, kind, usable⟩] } =
        { e.kept with directory := e.kept.directory ++ [entryOf ⟨id, kind, usable⟩] } := by
      rw [kept, Directory.kept_concat hname]
      rfl
    have hreach : e.kept.reach (anyTemporaryName id) = e.reach (anyTemporaryName id) := rfl
    rw [add_of_addable haddable, add_of_addable ((addable_kept e id kind records).trans haddable),
      hreach, ← hkept]
    cases e.reach (anyTemporaryName id) with
    | error failure => rfl
    | ok =>
      -- The names that are answered are read off the directory with the new file.
      have hlist := list_kept { e with directory := e.directory ++ [entryOf ⟨id, kind, usable⟩] }
      exact congrArg (fun infos => Except.ok (infos.map (·.id), _)) hlist

theorem answer_reopen_of_sweepable (h : e.Sweepable) (limit : Nat) :
    e.answer (.reopen limit) = (.opened, kept { e with limit }) := by
  have hswept : ({ e with limit } : Engine).swept = .ok (kept { e with limit }) :=
    swept_eq_ok_iff.2 ⟨h, rfl⟩
  rw [answer, hswept]

/-- The effect of a call leaves the leftovers to be swept. -/
theorem sweepable_answer (h : e.Sweepable) (call : Call) : (e.answer call).2.Sweepable := by
  obtain ⟨d, limit, hafter, heffect, -⟩ := answer_effect e call
  rw [hafter]
  intro entry hentry hleftover
  refine h entry ?_ hleftover
  generalize (e.answer call).1 = reply at heffect
  cases heffect with
  | failed | listed | found => exact hentry
  | added =>
    rcases List.mem_append.1 hentry with hold | hnew
    · exact hold
    · rw [List.mem_singleton.1 hnew, entryOf, isLeftover_fileName] at hleftover
      cases hleftover
  | removed => exact List.mem_of_mem_filter hentry
  | opened => exact (Directory.mem_kept.1 hentry).1
  | stopped _ _ hsub => exact hsub.subset hentry

theorem settle_kept {α : Type} (reply : α → Reply) (outcome : Except Failure (α × Engine)) :
    Reply.settle e.kept reply (outcome.map fun done => (done.1, done.2.kept)) =
      ((Reply.settle e reply outcome).1, (Reply.settle e reply outcome).2.kept) := by
  cases outcome <;> rfl

/-- A call is answered alike with and without the leftovers, and has the same effect on the rest. -/
theorem answer_kept (h : e.Sweepable) (call : Call) :
    e.kept.answer call = ((e.answer call).1, (e.answer call).2.kept) := by
  cases call with
  | reopen limit =>
    rw [answer_reopen_of_sweepable h, answer_reopen_of_sweepable (sweepable_kept e)]
    rfl
  | add id kind records => rw [answer, answer, add_kept, settle_kept]
  | remove id => rw [answer, answer, remove_kept, settle_kept]
  | list => rw [answer, answer, list_kept]
  | query j =>
    rw [answer, answer, query_kept, ← settle_kept]
    cases e.query j <;> rfl

/-- Whatever calls there are, nobody can tell whether leftovers are there. -/
theorem run_answer_kept (h : e.Sweepable) (calls : List Call) :
    Reply.run answer e.kept calls = Reply.run answer e calls := by
  induction calls generalizing e with
  | nil => rfl
  | cons call calls ih =>
    rw [Reply.run, Reply.run, answer_kept h, ih (sweepable_answer h call)]

end Engine

end CampusQuery
