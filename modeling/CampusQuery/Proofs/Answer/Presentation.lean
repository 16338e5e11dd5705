import CampusQuery.Proofs.Answer.Order
import CampusQuery.Proofs.Answer.Typing
/-!
What is asked of the rows only presents them.

The condition and the grouping of a query settle what its answer is made of: the matching records, or
the groups with their values. The columns, the order and the limit say how that is shown. An answer
is computed from rows that hold no more than the columns, and the order does not see the difference.
-/

namespace CampusQuery

/-- The fault has nothing to do with the number of rows. -/
def AnswerFault.OfValue (fault : AnswerFault) : Prop :=
  ∀ rows limit, fault ≠ .tooLarge rows limit

/-- What a row of an answer is made of. -/
inductive Item
  | record (r : Record)
  | group (row : Row)
deriving DecidableEq

namespace Item

/-- All columns of records of a kind. -/
def columns (dataset : String) (kind : Kind) : List Column :=
  kind.fields.map fun f => .field (dataset ++ "_" ++ f.key) f

/-- All cells there are, those of a record under the keys of its fields. -/
def row (dataset : String) : Item → Row
  | .record r => .ofRecord (columns dataset r.kind) r
  | .group row => row

end Item

namespace Query

/-- The matching records in their order, or the groups in the order of their first members. -/
def items (filter : Filter) (transform : Option Transform) (records : List Record) :
    Except AnswerFault (List Item) :=
  match transform with
  | some t => (t.rows (filter.matching records)).map (·.map .group)
  | none => .ok ((filter.matching records).map .record)

/-- The order of an answer; without one, all items tie. -/
def compareItems (q : Query) (a b : Item) : Ordering :=
  match q.options.order with
  | some order => order.compareRows (a.row q.dataset) (b.row q.dataset)
  | none => .eq

instance (q : Query) : Std.TransCmp q.compareItems := by
  unfold compareItems
  cases q.options.order with
  | none => exact { eq_swap := rfl, isLE_trans := fun _ _ => rfl }
  | some order =>
    have horder : Std.TransCmp fun a b : Item =>
        order.compareRows (a.row q.dataset) (b.row q.dataset) :=
      { eq_swap := Std.OrientedCmp.eq_swap, isLE_trans := Std.TransCmp.isLE_trans }
    exact horder

/-- The row of an answer that shows an item. -/
def shown (q : Query) (item : Item) : OutputRow :=
  Row.project q.options.columns (item.row q.dataset)

/-- An answer shows the items in order if they are within the limit. -/
inductive Presents (q : Query) (limit : Nat) :
    Except AnswerFault (List Item) → Except AnswerFault (List OutputRow) → Prop
  | error {fault : AnswerFault} (hfault : fault.OfValue) :
      Presents q limit (.error fault) (.error fault)
  | tooLarge {items : List Item} (hlimit : limit < items.length) :
      Presents q limit (.ok items) (.error (.tooLarge items.length limit))
  | ok {items sorted : List Item} (hlimit : items.length ≤ limit)
      (hsorted : StablySorted q.compareItems items sorted) :
      Presents q limit (.ok items) (.ok (sorted.map q.shown))

end Query

/-! ### Rows that hold no more than the columns -/

namespace Row

/-- The rows have the same cells in the columns. -/
def Agree (columns : List Column) (a b : Row) : Prop :=
  ∀ c ∈ columns, a.get? c.key = b.get? c.key

theorem Agree.project_eq {columns : List Column} {a b : Row} (h : Agree columns a b) :
    project columns a = project columns b := by
  unfold project
  congr 1
  apply List.map_congr_left
  intro c hc
  rw [h c hc]

theorem Agree.compareRows_eq {columns : List Column} {order : SortOrder}
    (horder : ∀ key ∈ order.keys, ∃ c ∈ columns, c.key = key) {a a' b b' : Row}
    (h : Agree columns a a') (h' : Agree columns b b') :
    order.compareRows a b = order.compareRows a' b' := by
  obtain ⟨direction, keys⟩ := order
  have hkeys : SortOrder.compareKeys keys a b = SortOrder.compareKeys keys a' b' := by
    induction keys with
    | nil => rfl
    | cons key keys ih =>
      rw [List.forall_mem_cons] at horder
      obtain ⟨⟨c, hc, rfl⟩, hrest⟩ := horder
      rw [SortOrder.compareKeys, SortOrder.compareKeys, h c hc, h' c hc, ih hrest]
  cases direction <;> simp only [SortOrder.compareRows, hkeys]

/-- The columns of a query are among all columns of records. -/
theorem agree_ofRecord {subject : Subject} {columns : List Column}
    (hcolumns : ∀ c ∈ columns, c.Available subject none) {r : Record}
    (hkind : r.kind = subject.kind) :
    Agree columns ((Item.record r).row subject.dataset) (ofRecord columns r) := by
  intro c hc
  have havailable := hcolumns c hc
  cases c with
  | applied key => exact havailable.elim
  | field key f =>
    have hall : ∀ c ∈ Item.columns subject.dataset r.kind, c.Available subject none := by
      intro c hc
      obtain ⟨f', hf', rfl⟩ := List.mem_map.1 hc
      exact ⟨rfl, ((Field.mem_fields_iff f' r.kind).1 hf').trans hkind, havailable.not_blank,
        havailable.no_delimiter⟩
    have hmem : .field key f ∈ Item.columns subject.dataset r.kind :=
      List.mem_map.2 ⟨f, (Field.mem_fields_iff f r.kind).2 (havailable.kind_eq.trans hkind.symm),
        by rw [havailable.key_eq]⟩
    rw [Item.row, get?_ofRecord hall hkind hmem, get?_ofRecord hcolumns hkind hc]

end Row

/-! ### Values that cannot be computed -/

section

open Outcome

theorem Aggregate.exactSum_failsOnly (numbers : List Double) :
    FailsOnly AnswerFault.OfValue (exactSum numbers) := by
  apply FailsOnly.foldlM
  intro sum x
  cases Decimal.ofDouble? x with
  | none => exact .error nofun
  | some d =>
    cases hsum : sum.add? d with
    | none =>
      simp only [hsum]
      exact .error nofun
    | some sum =>
      simp only [hsum]
      exact .ok sum

theorem Aggregate.value_failsOnly (rule : ApplyRule) (members : List Record) :
    FailsOnly AnswerFault.OfValue (value rule members) := by
  unfold value
  cases rule.aggregate with
  | max | min | count => exact .ok _
  | sum => exact (exactSum_failsOnly _).bind fun _ => .ok _
  | avg =>
    refine (exactSum_failsOnly _).bind fun sum => ?_
    cases members.isEmpty with
    | true => exact .error nofun
    | false => exact .ok _

/-- Grouping does not fail for the number of groups. -/
theorem Transform.rows_failsOnly (t : Transform) (records : List Record) :
    FailsOnly AnswerFault.OfValue (t.rows records) :=
  FailsOnly.mapM (fun _ => FailsOnly.foldlM
    (fun _ _ => (Aggregate.value_failsOnly _ _).bind fun _ => .ok _) _ _) _

theorem Query.items_failsOnly (filter : Filter) (transform : Option Transform)
    (records : List Record) :
    FailsOnly AnswerFault.OfValue (items filter transform records) := by
  cases transform with
  | none => exact .ok _
  | some t => exact (t.rows_failsOnly _).map _

end

namespace Query

variable {q : Query} {j : Json} {records : List Record}

/-- The cells of an item that an answer is computed from. -/
def narrowRow (q : Query) : Item → Row
  | .record r => .ofRecord q.options.columns r
  | .group row => row

/-- Presenting items does not need the cells that are not computed. -/
theorem map_project_sorted {items : List Item}
    (horder : ∀ order ∈ q.options.order, ∀ key ∈ order.keys, ∃ c ∈ q.options.columns, c.key = key)
    (hrows : ∀ i ∈ items, Row.Agree q.options.columns (i.row q.dataset) (q.narrowRow i)) :
    (q.options.sorted (items.map q.narrowRow)).map (Row.project q.options.columns) =
      (items.mergeSort fun a b => (q.compareItems a b).isLE).map q.shown := by
  have hsorted : q.options.sorted (items.map q.narrowRow) =
      (items.mergeSort fun a b => (q.compareItems a b).isLE).map q.narrowRow := by
    unfold Options.sorted compareItems
    cases h : q.options.order with
    | none =>
      have hties : items.Pairwise fun _ _ => Ordering.eq.isLE = true :=
        List.pairwise_of_forall fun _ _ => rfl
      exact congrArg (List.map q.narrowRow) (List.mergeSort_of_pairwise hties).symm
    | some order =>
      symm
      apply List.map_mergeSort
      intro a ha b hb
      dsimp only
      rw [(hrows a ha).compareRows_eq (horder order h) (hrows b hb)]
  rw [hsorted, List.map_map]
  apply List.map_congr_left
  intro i hi
  exact (hrows i (List.mem_mergeSort.1 hi)).project_eq.symm

/-- The limit is on the number of items, whichever way they come about. -/
theorem execute_eq_bind (q : Query) (limit : Nat) (records : List Record) :
    q.execute limit records = do
      let items ← items q.filter q.transform records
      checkLimit items.length limit
      return (q.options.sorted (items.map q.narrowRow)).map (Row.project q.options.columns) := by
  unfold execute rows items
  cases q.transform with
  | none =>
    dsimp only
    rw [Outcome.ok_bind, List.length_map, List.map_map]
    -- The limit is checked before the rows are made, and again when they are.
    cases hlimit : checkLimit (q.filter.matching records).length limit with
    | error fault => rfl
    | ok =>
      change q.options.present limit ((q.filter.matching records).map _) = _
      rw [Options.present, List.length_map, hlimit]
      rfl
  | some t =>
    dsimp only
    cases t.rows (q.filter.matching records) with
    | error fault => rfl
    | ok rows =>
      have hrows : (rows.map Item.group).map q.narrowRow = rows := by
        rw [List.map_map]
        exact List.map_id rows
      change q.options.present limit rows = do
        checkLimit (rows.map Item.group).length limit
        return (q.options.sorted ((rows.map Item.group).map q.narrowRow)).map
          (Row.project q.options.columns)
      rw [hrows, List.length_map]
      rfl

theorem agree_narrowRow (hq : q.Written j) (hrecords : ∀ r ∈ records, r.kind = q.kind)
    {l : List Item} (h : items q.filter q.transform records = .ok l) :
    ∀ i ∈ l, Row.Agree q.options.columns (i.row q.dataset) (q.narrowRow i) := by
  intro i hi
  cases i with
  | group row => exact fun _ _ => rfl
  | record r =>
    cases ht : q.transform with
    | none =>
      rw [ht] at h
      cases h
      obtain ⟨r', hr', heq⟩ := List.mem_map.1 hi
      cases heq
      exact Row.agree_ofRecord (hq.available ht)
        (hrecords r ((Filter.matching_sublist q.filter records).subset hr'))
    | some t =>
      rw [ht] at h
      obtain ⟨rows, -, rfl⟩ := Outcome.map_eq_ok_iff.1 h
      obtain ⟨row, -, heq⟩ := List.mem_map.1 hi
      cases heq

/-- What a query answers presents its items. -/
theorem presents_execute (hq : q.Written j) (hrecords : ∀ r ∈ records, r.kind = q.kind)
    (limit : Nat) :
    q.Presents limit (items q.filter q.transform records) (q.execute limit records) := by
  rw [execute_eq_bind]
  cases h : items q.filter q.transform records with
  | error fault => exact .error (items_failsOnly _ _ _ fault h)
  | ok l =>
    rw [Outcome.ok_bind]
    by_cases hlimit : limit < l.length
    · rw [checkLimit, if_pos hlimit]
      exact .tooLarge hlimit
    · rw [checkLimit, if_neg hlimit, Outcome.ok_bind, map_project_sorted
        (fun order horder key hkey => hq.mem_columns_of_mem_order horder hkey)
        (agree_narrowRow hq hrecords h)]
      exact .ok (by omega) (stablySorted_mergeSort l)

section

variable {limit : Nat} {items : Except AnswerFault (List Item)}

theorem Presents.eq_error_iff {outcome : Except AnswerFault (List OutputRow)}
    (h : q.Presents limit items outcome) {fault : AnswerFault} :
    outcome = .error fault ↔ items = .error fault ∨
      ∃ l, items = .ok l ∧ limit < l.length ∧ fault = .tooLarge l.length limit := by
  cases h with
  | error => simp
  | tooLarge hlimit => simp [hlimit, eq_comm]
  | ok hlimit =>
    simp only [reduceCtorEq, Except.ok.injEq, false_or, false_iff, not_exists]
    rintro l ⟨rfl, hover, -⟩
    omega

/-- A query answers one way only: stable sorting leaves no choice. -/
theorem Presents.unique {limit' : Nat}
    {answer : List OutputRow} (h : q.Presents limit items (.ok answer))
    {outcome : Except AnswerFault (List OutputRow)} (h' : q.Presents limit' items outcome)
    (hlimit : limit ≤ limit') : outcome = .ok answer := by
  cases h with
  | ok hwithin hsorted =>
    cases h' with
    | tooLarge hover => omega
    | ok _ hsorted' => rw [hsorted.unique hsorted']

end

/-- Of two queries with one condition and one grouping, both present the same items, whatever they
ask of the rows. -/
theorem execute_presents {j' : Json} {q' : Query} (hq : ofJson j = .ok q)
    (hq' : ofJson j' = .ok q') (hkind : q'.kind = q.kind) (hfilter : q'.filter = q.filter)
    (htransform : q'.transform = q.transform) (hrecords : ∀ r ∈ records, r.kind = q.kind) :
    (∀ limit, q.Presents limit (items q.filter q.transform records) (q.execute limit records) ∧
      q'.Presents limit (items q.filter q.transform records) (q'.execute limit records)) ∧
    (∀ limit fault, q.execute limit records = .error fault ↔
      q'.execute limit records = .error fault) ∧
    (∀ limit rows limit', q.execute limit records = .error (.tooLarge rows limit') ↔
      ∃ l, items q.filter q.transform records = .ok l ∧ rows = l.length ∧ limit' = limit ∧
        limit < rows) ∧
    ∀ limit limit' answer, limit ≤ limit' → q.execute limit records = .ok answer →
      q.execute limit' records = .ok answer := by
  have hpresents : ∀ limit, q.Presents limit (items q.filter q.transform records)
      (q.execute limit records) :=
    presents_execute (written_of_ofJson hq) hrecords
  have hpresents' : ∀ limit, q'.Presents limit (items q.filter q.transform records)
      (q'.execute limit records) := by
    have h := presents_execute (written_of_ofJson hq') (hkind.symm ▸ hrecords)
    rwa [hfilter, htransform] at h
  refine ⟨fun limit => ⟨hpresents limit, hpresents' limit⟩, fun limit fault => ?_,
    fun limit rows limit' => ?_, fun limit limit' answer hlimit h => ?_⟩
  · rw [(hpresents limit).eq_error_iff, (hpresents' limit).eq_error_iff]
  · rw [(hpresents limit).eq_error_iff]
    constructor
    · intro h
      rcases h with h | ⟨l, hl, hlimit, heq⟩
      · exact absurd rfl (items_failsOnly _ _ _ _ h rows limit')
      · cases heq
        exact ⟨l, hl, rfl, rfl, hlimit⟩
    · intro h
      obtain ⟨l, hl, rfl, rfl, hlimit⟩ := h
      exact .inr ⟨l, hl, hlimit, rfl⟩
  · exact (h ▸ hpresents limit).unique (hpresents limit') hlimit

/-- Two queries about two sections, one of which asks for an order. -/
theorem execute_presents_of_two_sections :
    let taught (dept : String) (avg : Double) : Record :=
      .ofSection ⟨dept, "", "", "", dept, .zero, avg, .zero, .zero, .zero⟩
    let records := [taught "math" ⟨0x3FF8000000000000⟩, taught "cpsc" .zero]
    let j (options : List (String × Json)) : Json :=
      .object [("WHERE", .object []), ("OPTIONS", .object options)]
    let departments := j [("COLUMNS", .array [.string "ubc_dept"])]
    let averages := j [("COLUMNS", .array [.string "sfu_avg"]), ("ORDER", .string "sfu_avg")]
    ∃ q q', ofJson departments = .ok q ∧ ofJson averages = .ok q' ∧
      q.execute 1 records = .error (.tooLarge 2 1) ∧
      q'.execute 1 records = .error (.tooLarge 2 1) ∧
      q.Presents 2 (.ok (records.map .record)) (q.execute 2 records) ∧
      q'.Presents 2 (.ok (records.map .record)) (q'.execute 2 records) := by
  intro taught records j departments averages
  let q : Query := ⟨"ubc", .sections, .all, none, ⟨[.field "ubc_dept" .dept], none⟩⟩
  let q' : Query :=
    ⟨"sfu", .sections, .all, none, ⟨[.field "sfu_avg" .avg], some ⟨.up, ["sfu_avg"]⟩⟩⟩
  have hq : ofJson departments = .ok q := rfl
  have hq' : ofJson averages = .ok q' := rfl
  have hrecords : ∀ r ∈ records, r.kind = q.kind := by decide
  obtain ⟨hpresents, hfaults, hlimit, -⟩ := execute_presents hq hq' rfl rfl rfl hrecords
  have hover : q.execute 1 records = .error (.tooLarge 2 1) :=
    (hlimit 1 2 1).2 ⟨_, rfl, rfl, rfl, by decide⟩
  exact ⟨q, q', hq, hq', hover, (hfaults 1 _).1 hover, hpresents 2⟩

end Query

end CampusQuery
