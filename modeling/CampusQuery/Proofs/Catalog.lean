import CampusQuery.Engine
import CampusQuery.Proofs.Dataset.Reread
import CampusQuery.Proofs.Utf8
import Std.Data.TreeMap.Lemmas
/-!
What a data directory stands for: a map from names to records of a kind.

A catalog answers the same calls as an engine, without files. Its datasets are in the order of the
bytes of their names.
-/

namespace CampusQuery

/-! ### Calls -/

/-- An operation on a data directory. A new engine over it, with a limit of its own on the rows of
answers, is one. -/
inductive Call
  | reopen (limit : Nat)
  | add (id : String) (kind : Kind) (records : List Record)
  | remove (id : String)
  | list
  | query (j : Json)

namespace Call

/-- The names of datasets that a call is about. -/
def names : Call → List String
  | .add id _ _ | .remove id => [id]
  | .query j => ((Query.ofJson j).toOption.map Query.dataset).toList
  | .reopen _ | .list => []

/-- The records of a call are no more than can be counted, and all of their numbers are finite. -/
def Storable : Call → Prop
  | .add _ _ records => records.length < 2 ^ 64 ∧ ∀ r ∈ records, r.Finite
  | _ => True

/-- The call with its records as their texts are read. -/
def reread : Call → Call
  | .add id kind records => .add id kind (records.map Record.reread)
  | call => call

/-- The text of each number of the call is read as that number. -/
def ReadsBack : Call → Prop
  | .add _ _ records => ∀ r ∈ records, r.ReadsBack
  | _ => True

theorem reread_eq_self {call : Call} (h : call.ReadsBack) : call.reread = call := by
  cases call with
  | add id kind records => exact congrArg (add id kind) (Record.map_reread_eq_self h)
  | reopen | remove | list | query => rfl

theorem map_reread_eq_self {calls : List Call} (h : ∀ call ∈ calls, call.ReadsBack) :
    calls.map reread = calls :=
  (List.map_congr_left fun call hcall => reread_eq_self (h call hcall)).trans (List.map_id calls)

end Call

/-- What an operation answers. -/
inductive Reply
  | opened
  | added (ids : List String)
  | removed (id : String)
  | listed (datasets : List DatasetInfo)
  | found (rows : List OutputRow)
  | failed (failure : Failure)

namespace Reply

variable {σ α : Type}

/-- The reply to an operation that does something as a whole or not at all, and what is there after
it. -/
def settle (s : σ) (reply : α → Reply) : Except Failure (α × σ) → Reply × σ
  | .ok (a, s) => (reply a, s)
  | .error failure => (.failed failure, s)

/-- The replies to calls one after the other. -/
def run (answer : σ → Call → Reply × σ) (s : σ) : List Call → List Reply
  | [] => []
  | call :: calls => (answer s call).1 :: run answer (answer s call).2 calls

end Reply

/-- The reply of an engine, and the engine after it. -/
def Engine.answer (e : Engine) : Call → Reply × Engine
  | .reopen limit =>
    match swept { e with limit } with
    | .ok e => (.opened, e)
    | .error failure => (.failed failure, e.partlySwept)
  | .add id kind records => Reply.settle e .added (e.add id kind records)
  | .remove id => Reply.settle e .removed (e.remove id)
  | .list => (.listed e.list, e)
  | .query j => Reply.settle e .found ((e.query j).map fun rows => (rows, e))

/-! ### Catalogs -/

/-- The order of the bytes of two texts. -/
def byBytes (s s' : String) : Ordering :=
  compare (utf8 s) (utf8 s')

instance : Std.TransCmp byBytes :=
  inferInstanceAs (Std.TransCmp (compareOn utf8))

instance : Std.LawfulEqCmp byBytes where
  compare_self := Std.ReflOrd.compare_self
  eq_of_compare h := utf8_injective (Std.LawfulEqOrd.eq_of_compare h)

structure Catalog where
  /-- The most rows of an answer. -/
  limit : Nat
  datasets : Std.TreeMap String (Kind × List Record) byBytes

namespace Catalog

/-- The entries of a listing. -/
def list (c : Catalog) : List DatasetInfo :=
  c.datasets.toList.map fun (id, kind, records) => ⟨id, kind, records.length⟩

theorem ordered_list (c : Catalog) : c.list.Pairwise fun i i' => compare i.id i'.id = .lt := by
  rw [list, List.pairwise_map]
  refine Std.TreeMap.ordered_keys_toList.imp fun {entry entry'} h => ?_
  rw [← compare_utf8]
  exact h

theorem nodup_list (c : Catalog) : c.list.Nodup := by
  refine c.ordered_list.imp fun {i i'} h heq => ?_
  rw [heq, Std.ReflOrd.compare_self] at h
  cases h

theorem map_id_list (c : Catalog) : c.list.map (·.id) = c.datasets.keys := by
  rw [list, List.map_map, ← Std.TreeMap.map_fst_toList_eq_keys]
  rfl

/-- Binds a free name to the records of a kind, the first with each natural identifier; the answer
is all names. -/
def add (c : Catalog) (id : String) (kind : Kind) (records : List Record) :
    Except Failure (List String × Catalog) :=
  let kept := records.filter fun r => r.kind = kind
  match Dataset.checkId id with
  | .error fault => .error (.badId fault)
  | .ok () =>
    if id ∈ c.datasets then .error (.conflict id)
    else if kept = [] then .error (.noUsableRecords kind)
    else
      let distinct := kept.eraseDupsBy fun r r' => r.naturalId = r'.naturalId
      let datasets := c.datasets.insert id (kind, distinct)
      .ok (datasets.keys, { c with datasets })

/-- Unbinds a name. -/
def remove (c : Catalog) (id : String) : Except Failure (String × Catalog) :=
  match Dataset.checkId id with
  | .error fault => .error (.badId fault)
  | .ok () =>
    if id ∈ c.datasets then .ok (id, { c with datasets := c.datasets.erase id })
    else .error (.notFound id)

/-- The answer of a query over the records that its dataset is bound to. -/
def query (c : Catalog) (j : Json) : Except Failure (List OutputRow) :=
  match Query.ofJson j with
  | .error fault => .error (.query fault)
  | .ok q =>
    match c.datasets[q.dataset]? with
    | none => .error (.notFound q.dataset)
    | some (kind, records) =>
      if kind = q.kind then (q.execute c.limit records).mapError .answer
      else .error (.kindMismatch q.dataset kind q.kind)

/-- The reply of a catalog, and the catalog after it. -/
def answer (c : Catalog) : Call → Reply × Catalog
  | .reopen limit => (.opened, { c with limit })
  | .add id kind records => Reply.settle c .added (c.add id kind records)
  | .remove id => Reply.settle c .removed (c.remove id)
  | .list => (.listed c.list, c)
  | .query j => Reply.settle c .found ((c.query j).map fun rows => (rows, c))

end Catalog

end CampusQuery
