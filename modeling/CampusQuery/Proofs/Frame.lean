import CampusQuery.Proofs.Atomicity
/-!
What a call does to a directory, and what it leaves alone.

A call that fails does nothing, and one that succeeds does no more than adding or taking away one
file. Opening a directory takes away leftovers, some of them even if it fails, and nothing else.
Datasets with files of their own are therefore answered as before. This is so although an engine
works on its files one by one and any operation on them may be refused, and what more can then
happen leaves these datasets alone as well.
-/

namespace CampusQuery

open Storage

/-! ### The file of a dataset -/

namespace Storage

end Storage

/-! ### What calls change -/

/-- What a call with its reply makes of a directory. -/
inductive Effect (d : Directory) : Call → Reply → Directory → Prop
  | failed {call : Call} (hcall : ∀ limit, call ≠ .reopen limit) (failure : Failure) :
      Effect d call (.failed failure) d
  | listed (datasets : List DatasetInfo) : Effect d .list (.listed datasets) d
  | found (j : Json) (rows : List OutputRow) : Effect d (.query j) (.found rows) d
  | added {id : String} {kind : Kind} {records : List Record} (ids : List String)
      (hfree : d.find? (fileName id) = none) :
      Effect d (.add id kind records) (.added ids)
        (d ++ [entryOf ⟨id, kind, Dataset.usable kind records⟩])
  | removed {id : String} {bytes : ByteArray}
      (hfile : d.find? (fileName id) = some (.file bytes)) :
      Effect d (.remove id) (.removed id) (d.erase (fileName id))
  | opened (limit : Nat) : Effect d (.reopen limit) .opened d.kept
  | stopped (limit : Nat) (failure : Failure) {d' : Directory} (hsub : d'.Sublist d)
      (hkept : d'.kept = d.kept) : Effect d (.reopen limit) (.failed failure) d'

namespace Effect

end Effect

namespace Engine

variable {e : Engine} {call : Call}

/-- The effect of a call on the directory is that of its reply. Only a new engine has a limit of its
own. -/
theorem answer_effect (e : Engine) (call : Call) :
    ∃ d limit, (e.answer call).2 = { e with directory := d, limit } ∧
      Effect e.directory call (e.answer call).1 d ∧
      ((∀ limit', call ≠ .reopen limit') → limit = e.limit) := by
  cases call with
  | reopen limit =>
    rw [answer]
    cases hswept : swept { e with limit } with
    | error failure =>
      exact ⟨_, e.limit, rfl, .stopped limit failure (Store.sweepUntil_sublist _ _)
        (Store.kept_sweepUntil _ _), fun _ => rfl⟩
    | ok e' =>
      rw [swept_eq_ok hswept]
      exact ⟨_, limit, rfl, .opened limit, fun hcall => absurd rfl (hcall limit)⟩
  | list => exact ⟨_, _, rfl, .listed _, fun _ => rfl⟩
  | add id kind records =>
    rw [answer]
    cases hadd : e.add id kind records with
    | error failure => exact ⟨_, _, rfl, .failed (fun _ h => by cases h) failure, fun _ => rfl⟩
    | ok added =>
      obtain ⟨ids, e'⟩ := added
      obtain ⟨-, -, hfree, -, -, rfl, -⟩ := add_eq_ok_iff.1 hadd
      exact ⟨_, _, rfl, .added ids hfree, fun _ => rfl⟩
  | remove id =>
    rw [answer]
    cases hremove : e.remove id with
    | error failure => exact ⟨_, _, rfl, .failed (fun _ h => by cases h) failure, fun _ => rfl⟩
    | ok removed =>
      obtain ⟨removed, e'⟩ := removed
      obtain ⟨-, -, ⟨bytes, hfile⟩, rfl, rfl⟩ := remove_eq_ok_iff.1 hremove
      exact ⟨_, _, rfl, .removed hfile, fun _ => rfl⟩
  | query j =>
    rw [answer]
    cases e.query j with
    | error failure => exact ⟨_, _, rfl, .failed (fun _ h => by cases h) failure, fun _ => rfl⟩
    | ok rows => exact ⟨_, _, rfl, .found j rows, fun _ => rfl⟩

section

variable {d : Directory} {id : String}
  (hfile : d.filter (·.1 == fileName id) = e.directory.filter (·.1 == fileName id))
include hfile

end

end Engine

end CampusQuery
