import CampusQuery.Proofs.Catalog
import CampusQuery.Proofs.Steps
import CampusQuery.Proofs.Storage.Entries
/-!
An engine answers as the catalog that its directory stands for.

A directory holds texts, and what an engine finds in it is what these are read as. So it stands for
the datasets as they are read again, which are those that were added where the text of each of their
numbers is read as that number.
-/

namespace CampusQuery

open Storage

/-! ### The records that are kept -/

namespace Dataset

theorem storable_usable {id : String} (hcheck : checkId id = .ok ()) (kind : Kind)
    {records : List Record} (hlength : records.length < 2 ^ 64)
    (hfinite : ∀ r ∈ records, r.Finite) :
    Storable ⟨id, kind, usable kind records⟩ := by
  have hsublist := usable_sublist kind records
  refine ⟨?_, ?_, ?_, ?_⟩
  · rintro rfl
    cases hcheck
  · exact hsublist.length_le.trans_lt hlength
  · exact fun r hr => kind_eq_of_mem_usable hr
  · exact fun r hr => hfinite r (hsublist.subset hr)

end Dataset

/-! ### What a directory stands for -/

/-- The directory of the engine holds the files of datasets, the catalog has them as they are read
again, and names of files that are long enough are within reach. -/
structure Represents (ids : List String) (l : List Dataset) (e : Engine) (c : Catalog) : Prop where
  holds : Holds ids e.directory l
  bound : ∀ data ∈ l, c.datasets[data.id]? = some (data.kind, data.reread.records)
  held : ∀ id ∈ c.datasets, ∃ data ∈ l, data.id = id
  limit_eq : e.limit = c.limit
  longest : 166 ≤ e.longestName

namespace Represents

variable {ids : List String} {l : List Dataset} {e : Engine} {c : Catalog}

theorem ne_of_not_mem (h : Represents ids l e c) {id : String} (hid : id ∉ c.datasets) :
    ∀ data ∈ l, data.id ≠ id := by
  rintro data hdata rfl
  have hbound := h.bound data hdata
  rw [Std.TreeMap.getElem?_eq_none hid] at hbound
  cases hbound

theorem reach_fileName (h : Represents ids l e c) (id : String) :
    e.reach (fileName id) = .ok () := by
  have hname := utf8ByteSize_fileName_le id
  have hlongest := h.longest
  exact if_pos (by omega)

theorem reach_anyTemporaryName (h : Represents ids l e c) (id : String) :
    e.reach (anyTemporaryName id) = .ok () := by
  have hname := utf8ByteSize_anyTemporaryName_le id
  have hlongest := h.longest
  exact if_pos (by omega)

theorem contains_eq (hids : DigestsApart ids) (h : Represents ids l e c) {id : String}
    (hid : id ∈ ids) : Store.contains e.directory id = decide (id ∈ c.datasets) := by
  by_cases hmem : id ∈ c.datasets
  · obtain ⟨data, hdata, rfl⟩ := h.held id hmem
    rw [Store.contains, h.holds.find?_of_mem hids hdata]
    simp [hmem]
  · rw [Store.contains, h.holds.find?_of_not_mem hids hid (h.ne_of_not_mem hmem)]
    simp [hmem]

/-- A dataset of a new name is in both. -/
theorem insert (h : Represents ids l e c) {data : Dataset} (hnew : data.id ∉ c.datasets)
    {d : Directory} (hholds : Holds ids d (l ++ [data])) :
    Represents ids (l ++ [data]) { e with directory := d }
      { c with datasets := c.datasets.insert data.id (data.kind, data.reread.records) } := by
  refine ⟨hholds, fun other hother => ?_, fun id hid => ?_, h.limit_eq, h.longest⟩
  · rw [Std.TreeMap.getElem?_insert]
    simp only [Std.LawfulEqCmp.compare_eq_iff_eq]
    rcases List.mem_append.1 hother with hold | hlast
    · rw [if_neg fun heq => h.ne_of_not_mem hnew other hold heq.symm]
      exact h.bound other hold
    · rw [List.mem_singleton.1 hlast, if_pos rfl]
  · simp only [Std.TreeMap.mem_insert, Std.LawfulEqCmp.compare_eq_iff_eq] at hid
    rcases hid with rfl | hid
    · exact ⟨data, by simp, rfl⟩
    · obtain ⟨other, hother, rfl⟩ := h.held id hid
      exact ⟨other, List.mem_append_left _ hother, rfl⟩

/-- A name is taken away from both. -/
theorem erase (h : Represents ids l e c) {id : String} {d : Directory}
    (hholds : Holds ids d (l.filter (·.id != id))) :
    Represents ids (l.filter (·.id != id)) { e with directory := d }
      { c with datasets := c.datasets.erase id } := by
  refine ⟨hholds, fun other hother => ?_, fun other hother => ?_, h.limit_eq, h.longest⟩
  · obtain ⟨hother, hne⟩ := List.mem_filter.1 hother
    rw [Std.TreeMap.getElem?_erase]
    simp only [Std.LawfulEqCmp.compare_eq_iff_eq]
    rw [if_neg fun heq => bne_iff_ne.1 hne heq.symm]
    exact h.bound other hother
  · simp only [Std.TreeMap.mem_erase, Ne, Std.LawfulEqCmp.compare_eq_iff_eq] at hother
    obtain ⟨data, hdata, rfl⟩ := h.held other hother.2
    exact ⟨data, List.mem_filter.2 ⟨hdata, bne_iff_ne.2 fun heq => hother.1 heq.symm⟩, rfl⟩

/-! ### Listing -/

theorem mem_map_info_iff (h : Represents ids l e c) {info : DatasetInfo} :
    info ∈ l.map Dataset.info ↔ info ∈ c.list := by
  constructor
  · intro hinfo
    obtain ⟨data, hdata, rfl⟩ := List.mem_map.1 hinfo
    exact List.mem_map.2 ⟨(data.id, data.kind, data.reread.records),
      Std.TreeMap.mem_toList_iff_getElem?_eq_some.2 (h.bound data hdata), data.info_reread⟩
  · intro hinfo
    obtain ⟨⟨id, kind, records⟩, hentry, rfl⟩ := List.mem_map.1 hinfo
    have hfound := Std.TreeMap.mem_toList_iff_getElem?_eq_some.1 hentry
    obtain ⟨data, hdata, rfl⟩ := h.held id (Std.TreeMap.mem_iff_isSome_getElem?.2
      (Option.isSome_of_eq_some hfound))
    obtain ⟨rfl, rfl⟩ := Prod.mk.inj (Option.some.inj ((h.bound data hdata).symm.trans hfound))
    exact List.mem_map.2 ⟨data, hdata, data.info_reread.symm⟩

theorem nodup_map_info (h : Represents ids l e c) : (l.map Dataset.info).Nodup := by
  have hids : ((l.map Dataset.info).map DatasetInfo.id).Nodup := by
    rw [List.map_map]
    exact h.holds.nodup
  exact hids.of_map

/-- A listing has the datasets in the order of their names. -/
theorem list_eq (h : Represents ids l e c) : e.list = c.list := by
  have hperm : (l.map Dataset.info).Perm c.list :=
    (List.perm_ext_iff_of_nodup h.nodup_map_info c.nodup_list).2 fun _ => h.mem_map_info_iff
  rw [Engine.list_eq_mergeSort h.longest h.holds.entries fun data hdata =>
    ⟨(h.holds.storable data hdata).id_ne, (h.holds.storable data hdata).length_lt⟩]
  refine List.Perm.eq_of_pairwise (fun i i' hi hi' hle hle' => ?_)
    (pairwise_mergeSort_isLE _) (c.ordered_list.imp fun hlt => Ordering.isLE_of_eq_lt hlt)
    ((List.mergeSort_perm _ _).trans hperm)
  have hid : i.id = i'.id :=
    Std.LawfulEqOrd.eq_of_compare (Std.OrientedCmp.isLE_antisymm hle hle')
  obtain ⟨data, hdata, rfl⟩ := List.mem_map.1 (List.mem_mergeSort.1 hi)
  obtain ⟨data', hdata', rfl⟩ := List.mem_map.1 (h.mem_map_info_iff.2 hi')
  rw [h.holds.eq_of_id_eq hdata hdata' hid]

end Represents

/-! ### Single calls -/

/-- An engine that stands for a catalog, whatever the datasets. -/
def Simulates (ids : List String) (e : Engine) (c : Catalog) : Prop :=
  ∃ l, Represents ids l e c

/-- Two outcomes that agree in what can be seen, and after which one still stands for the other. -/
inductive Agree {α : Type} (ids : List String) :
    Except Failure (α × Engine) → Except Failure (α × Catalog) → Prop
  | ok {a : α} {e : Engine} {c : Catalog} (h : Simulates ids e c) :
    Agree ids (.ok (a, e)) (.ok (a, c))
  | error (failure : Failure) : Agree ids (.error failure) (.error failure)

variable {ids : List String}

theorem Agree.settle {α : Type} {outcome : Except Failure (α × Engine)}
    {outcome' : Except Failure (α × Catalog)} (h : Agree ids outcome outcome') {e : Engine}
    {c : Catalog} (hec : Simulates ids e c) (reply : α → Reply) :
    (Reply.settle e reply outcome).1 = (Reply.settle c reply outcome').1 ∧
      Simulates ids (Reply.settle e reply outcome).2 (Reply.settle c reply outcome').2 := by
  cases h with
  | ok h => exact ⟨rfl, h⟩
  | error failure => exact ⟨rfl, hec⟩

namespace Simulates

variable {e : Engine} {c : Catalog}

theorem add_agree (hids : DigestsApart ids) (h : Simulates ids e c) {id : String} (hid : id ∈ ids)
    (kind : Kind) {records : List Record} (hlength : records.length < 2 ^ 64)
    (hfinite : ∀ r ∈ records, r.Finite) :
    Agree ids (e.add id kind records) (c.add id kind (records.map Record.reread)) := by
  obtain ⟨l, h⟩ := h
  cases hcheck : Dataset.checkId id with
  | error fault =>
    rw [Engine.add, Catalog.add, hcheck]
    exact .error _
  | ok =>
    have hreach := h.reach_fileName id
    have hcontains := h.contains_eq hids hid
    have hempty := Dataset.isEmpty_usable kind records
    have hkeeps : (records.map Record.reread).filter (fun r => r.kind = kind) =
        (records.filter fun r => r.kind = kind).map Record.reread := by
      simp [List.filter_map, Function.comp_def]
    have htemporary := h.reach_anyTemporaryName id
    simp only [Engine.add, Engine.usableRecords, Catalog.add, hcheck, hreach, hcontains, hempty,
      hkeeps, List.map_eq_nil_iff, htemporary, Outcome.mapError_ok, Outcome.ok_bind,
      decide_eq_true_eq]
    by_cases hmem : id ∈ c.datasets
    · rw [if_pos hmem, if_pos hmem]
      exact .error _
    · rw [if_neg hmem, if_neg hmem]
      by_cases hkept : (records.filter fun r => r.kind = kind) = []
      · rw [if_pos hkept, if_pos hkept]
        exact .error _
      · have hstorable := Dataset.storable_usable hcheck kind hlength hfinite
        obtain ⟨d, hput, hholds⟩ := h.holds.put hids hid (h.ne_of_not_mem hmem) hstorable
        have hinsert := h.insert hmem hholds
        rw [if_neg hkept, if_neg hkept, Outcome.ok_bind, hput, Outcome.ok_bind, hinsert.list_eq,
          Catalog.map_id_list, ← hkeeps, ← Dataset.usable_eq, Dataset.usable_map_reread]
        exact .ok ⟨_, hinsert⟩

theorem remove_agree (hids : DigestsApart ids) (h : Simulates ids e c) {id : String}
    (hid : id ∈ ids) : Agree ids (e.remove id) (c.remove id) := by
  obtain ⟨l, h⟩ := h
  cases hcheck : Dataset.checkId id with
  | error fault =>
    rw [Engine.remove, Catalog.remove, hcheck]
    exact .error _
  | ok =>
    have hreach := h.reach_fileName id
    simp only [Engine.remove, Catalog.remove, hcheck, hreach, Outcome.mapError_ok, Outcome.ok_bind]
    by_cases hmem : id ∈ c.datasets
    · obtain ⟨data, hdata, rfl⟩ := h.held id hmem
      obtain ⟨d, hremove, hholds⟩ := h.holds.remove hids hdata
      rw [hremove, if_pos hmem]
      exact .ok ⟨_, h.erase hholds⟩
    · rw [h.holds.remove_of_not_mem hids hid (h.ne_of_not_mem hmem), if_neg hmem]
      exact .error _

theorem query_eq (hids : DigestsApart ids) (h : Simulates ids e c) {j : Json}
    (hj : ∀ q, Query.ofJson j = .ok q → q.dataset ∈ ids) : e.query j = c.query j := by
  obtain ⟨l, h⟩ := h
  cases hq : Query.ofJson j with
  | error fault =>
    rw [Engine.query, Catalog.query, hq]
    rfl
  | ok q =>
    have hreach := h.reach_fileName q.dataset
    simp only [Engine.query, Catalog.query, hq, hreach, Outcome.mapError_ok, Outcome.ok_bind]
    cases hfound : c.datasets[q.dataset]? with
    | none =>
      have hmem : q.dataset ∉ c.datasets := by
        rw [Std.TreeMap.mem_iff_isSome_getElem?, hfound]
        exact Bool.false_ne_true
      rw [h.holds.get_of_not_mem hids (hj q hq) (h.ne_of_not_mem hmem)]
      rfl
    | some bound =>
      obtain ⟨data, hdata, hid⟩ := h.held q.dataset (Std.TreeMap.mem_iff_isSome_getElem?.2
        (Option.isSome_of_eq_some hfound))
      have hget := h.holds.get_of_mem hids hdata
      have hbound := h.bound data hdata
      rw [hid] at hget hbound
      obtain rfl := Option.some.inj (hbound.symm.trans hfound)
      rw [hget, Outcome.ok_bind, h.limit_eq]
      dsimp only [Dataset.reread]
      rw [hid]
      by_cases hkind : data.kind = q.kind
      · rw [if_pos hkind]
        exact if_neg (not_not.2 hkind)
      · rw [if_neg hkind]
        exact if_pos hkind

/-! ### Calls one after the other -/

/-- What one call preserves. -/
theorem answer (hids : DigestsApart ids) (h : Simulates ids e c) {call : Call}
    (hnames : ∀ id ∈ call.names, id ∈ ids) (hcall : call.Storable) :
    (e.answer call).1 = (c.answer call.reread).1 ∧
      Simulates ids (e.answer call).2 (c.answer call.reread).2 := by
  cases call with
  | reopen limit =>
    obtain ⟨l, hl⟩ := h
    rw [Engine.answer_reopen hl.holds.isLeftover_eq_false]
    exact ⟨rfl, l, hl.holds, hl.bound, hl.held, rfl, hl.longest⟩
  | add id kind records =>
    exact (h.add_agree hids (hnames id List.mem_cons_self) kind hcall.1 hcall.2).settle h _
  | remove id => exact (h.remove_agree hids (hnames id List.mem_cons_self)).settle h _
  | list =>
    obtain ⟨l, hl⟩ := h
    exact ⟨congrArg Reply.listed hl.list_eq, l, hl⟩
  | query j =>
    have hquery : e.query j = c.query j := by
      refine h.query_eq hids fun q hq => hnames q.dataset ?_
      rw [Call.names, hq]
      exact List.mem_cons_self
    dsimp only [Call.reread]
    rw [Engine.answer, Catalog.answer, hquery]
    cases c.query j with
    | error failure => exact ⟨rfl, h⟩
    | ok rows => exact ⟨rfl, h⟩

theorem run (hids : DigestsApart ids) (h : Simulates ids e c) {calls : List Call}
    (hnames : ∀ id ∈ calls.flatMap Call.names, id ∈ ids) (hcalls : ∀ call ∈ calls, call.Storable) :
    Reply.run Engine.answer e calls = Reply.run Catalog.answer c (calls.map Call.reread) := by
  induction calls generalizing e c with
  | nil => rfl
  | cons call calls ih =>
    simp only [List.flatMap_cons, List.mem_append, or_imp, forall_and] at hnames
    rw [List.forall_mem_cons] at hcalls
    obtain ⟨hreply, hnext⟩ := h.answer hids hnames.1 hcalls.1
    rw [List.map_cons, Reply.run, Reply.run, hreply, ih hnext hnames.2 hcalls.2]

/-- An empty directory stands for a catalog without datasets. -/
theorem of_empty (ids : List String) (limit : Nat) {longestName : Nat} (h : 166 ≤ longestName) :
    Simulates ids ⟨Directory.empty, limit, longestName⟩ ⟨limit, ∅⟩ := by
  refine ⟨[], ⟨rfl, List.nodup_nil, ?_, ?_⟩, ?_, ?_, rfl, h⟩
  · simp
  · simp
  · simp
  · simp

end Simulates

namespace Engine

/-- Over a directory that starts empty, an engine answers any calls as a catalog answers them with
their records read again: so it answers as the catalog does where the numbers of the calls read
back. The records that are added can be written, no two long names among the calls have one digest,
and the names of files are within reach. -/
theorem run_eq_run_catalog {limit longestName : Nat} (hlongest : 166 ≤ longestName)
    {calls : List Call} (hcalls : ∀ call ∈ calls, call.Storable)
    (hdigests : DigestsApart (calls.flatMap Call.names)) :
    Reply.run Engine.answer ⟨Directory.empty, limit, longestName⟩ calls =
        Reply.run Catalog.answer ⟨limit, ∅⟩ (calls.map Call.reread) ∧
      ((∀ call ∈ calls, call.ReadsBack) →
        Reply.run Engine.answer ⟨Directory.empty, limit, longestName⟩ calls =
          Reply.run Catalog.answer ⟨limit, ∅⟩ calls) := by
  have hrun := (Simulates.of_empty (calls.flatMap Call.names) limit hlongest).run hdigests
    (fun _ => id) hcalls
  refine ⟨hrun, fun hback => ?_⟩
  rw [hrun, Call.map_reread_eq_self hback]

/-- One of the names is too long for a hexadecimal form. -/
theorem run_with_long_name :
    let long := String.ofList (List.replicate 65 'a')
    let taught : Record :=
      .ofSection ⟨"cpsc", "310", "", "", "1", .zero, .zero, .zero, .zero, .zero⟩
    let room : Record := .ofRoom ⟨"", "", "", "", "", "", "", "1", .zero, .zero, .zero⟩
    let j : Json := .object [("WHERE", .object []),
      ("OPTIONS", .object [("COLUMNS", .array [.string (long ++ "_dept")])])]
    let calls : List Call := [.add "ubc" .rooms [room], .add long .sections [room, taught, taught],
      .add long .rooms [room], .list, .query j, .reopen 0, .query j, .remove long, .remove long]
    Reply.run Engine.answer ⟨Directory.empty, 1, 255⟩ calls =
      [.added ["ubc"], .added [long, "ubc"], .failed (.conflict long),
        .listed [⟨long, .sections, 1⟩, ⟨"ubc", .rooms, 1⟩],
        .found [[(long ++ "_dept", .string "cpsc")]], .opened, .failed (.answer (.tooLarge 1 0)),
        .removed long, .failed (.notFound long)] := by
  intro long taught room j calls
  have hfinite : taught.Finite ∧ room.Finite := by decide
  have hback : taught.ReadsBack ∧ room.ReadsBack := by decide +kernel
  have hcalls : ∀ call ∈ calls, call.Storable := by
    simp [calls, Call.Storable, hfinite]
  have hreads : ∀ call ∈ calls, call.ReadsBack := by
    simp [calls, Call.ReadsBack, hback]
  have hlong : ∀ id ∈ calls.flatMap Call.names, 64 < id.utf8ByteSize → id = long := by
    decide +kernel
  have hdigests : DigestsApart (calls.flatMap Call.names) := fun id hid id' hid' h h' _ =>
    (hlong id hid h).trans (hlong id' hid' h').symm
  rw [(run_eq_run_catalog (by decide) hcalls hdigests).2 hreads]
  dsimp +zetaDelta only
  rfl

/-- A number of seventeen digits is read as another one. The catalog that keeps what is added
answers with the number itself. -/
theorem run_ne_run_catalog :
    let taught : Record :=
      .ofSection ⟨"cpsc", "310", "", "", "1", .zero, ⟨0x4059000000000001⟩, .zero, .zero, .zero⟩
    let j : Json := .object [("WHERE", .object []),
      ("OPTIONS", .object [("COLUMNS", .array [.string "ubc_avg"])])]
    let calls : List Call := [.add "ubc" .sections [taught], .query j]
    (∀ call ∈ calls, call.Storable) ∧ DigestsApart (calls.flatMap Call.names) ∧
      Reply.run Engine.answer ⟨Directory.empty, 5000, 255⟩ calls =
        [.added ["ubc"], .found [[("ubc_avg", .number (.integer 100))]]] ∧
      Reply.run Catalog.answer ⟨5000, ∅⟩ calls =
        [.added ["ubc"], .found [[("ubc_avg", .number (.double ⟨0x4059000000000001⟩))]]] := by
  intro taught j calls
  have hfinite : taught.Finite := by decide
  have hcalls : ∀ call ∈ calls, call.Storable := by
    simp [calls, Call.Storable, hfinite]
  have hshort : ∀ id ∈ calls.flatMap Call.names, id.utf8ByteSize ≤ 64 := by decide +kernel
  have hdigests : DigestsApart (calls.flatMap Call.names) := fun id hid _ _ hlong _ _ =>
    absurd (hshort id hid) (Nat.not_le_of_lt hlong)
  have hread : taught.reread = .ofSection
      ⟨"cpsc", "310", "", "", "1", .zero, ⟨0x4059000000000000⟩, .zero, .zero, .zero⟩ := by
    decide +kernel
  have hempty : Simulates (calls.flatMap Call.names) ⟨Directory.empty, 5000, 255⟩ ⟨5000, ∅⟩ :=
    .of_empty _ _ (by decide)
  have hrun := hempty.run hdigests (fun _ => id) hcalls
  refine ⟨hcalls, hdigests, ?_, by dsimp +zetaDelta only; rfl⟩
  have hmap : calls.map Call.reread = [.add "ubc" .sections [taught.reread], .query j] := rfl
  rw [hrun, hmap, hread]
  dsimp +zetaDelta only
  rfl

end Engine

end CampusQuery
