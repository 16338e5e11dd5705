import CampusQuery.Proofs.Refinement
/-!
What is listed of a directory that engines have filled.

Whatever calls there were, the directory holds the files of datasets that some call has added, and
nothing else. What is listed can be loaded where all numbers of its records are finite. Numbers that
are not finite are written all the same: such a dataset is listed, and loading it fails.
-/

namespace CampusQuery

open Storage

/-- The engine after calls one after the other. -/
def Engine.after (e : Engine) (calls : List Call) : Engine :=
  calls.foldl (fun e call => (e.answer call).2) e

/-- The records of a call are no more than can be counted. -/
def Call.Countable : Call → Prop
  | .add _ _ records => records.length < 2 ^ 64
  | _ => True

/-- What holds before an operation and after it if it succeeds. -/
theorem Reply.settle_induction {σ α : Type} {P : σ → Prop} {s : σ} (hs : P s)
    {outcome : Except Failure (α × σ)} (h : ∀ a s', outcome = .ok (a, s') → P s')
    (reply : α → Reply) : P (settle s reply outcome).2 := by
  cases outcome with
  | error failure => exact hs
  | ok p => exact h p.1 p.2 rfl

/-! ### Directories of added datasets -/

/-- The dataset is what one of the calls adds. -/
structure Dataset.AddedBy (calls : List Call) (data : Dataset) : Prop where
  id_ne : data.id ≠ ""
  length_lt : data.records.length < 2 ^ 64
  added : ∃ records, Call.add data.id data.kind records ∈ calls ∧
    data.records = Dataset.usable data.kind records

/-- All entries are the files of datasets that the calls add, and their names differ. -/
structure FilledBy (calls : List Call) (d : Directory) : Prop where
  nodup : (d.map Prod.fst).Nodup
  entries : ∀ entry ∈ d, ∃ data : Dataset, entry = entryOf data ∧ data.AddedBy calls

namespace FilledBy

variable {calls : List Call} {d : Directory}

theorem of_empty (calls : List Call) : FilledBy calls Directory.empty :=
  ⟨List.nodup_nil, fun _ hentry => absurd hentry List.not_mem_nil⟩

theorem of_sublist (h : FilledBy calls d) {d' : Directory} (hsub : d'.Sublist d) :
    FilledBy calls d' :=
  ⟨h.nodup.sublist (hsub.map _), fun entry hentry => h.entries entry (hsub.subset hentry)⟩

/-- An entry of a free name keeps the names apart. -/
theorem concat (h : FilledBy calls d) {data : Dataset} (hdata : data.AddedBy calls)
    (hfree : d.find? (fileName data.id) = none) : FilledBy calls (d ++ [entryOf data]) := by
  constructor
  · rw [List.map_append, List.map_singleton, ← List.concat_eq_append]
    apply h.nodup.concat
    intro hmem
    obtain ⟨entry, hentry, heq⟩ := List.mem_map.1 hmem
    exact Directory.ne_of_find?_eq_none hfree entry hentry heq
  · intro entry hentry
    rcases List.mem_append.1 hentry with hentry | hentry
    · exact h.entries entry hentry
    · exact ⟨data, List.mem_singleton.1 hentry, hdata⟩

/-- What one call preserves. -/
theorem answer {e : Engine} (h : FilledBy calls e.directory) {call : Call} (hmem : call ∈ calls)
    (hcount : call.Countable) : FilledBy calls (e.answer call).2.directory := by
  let P (e : Engine) : Prop := FilledBy calls e.directory
  cases call with
  | reopen limit =>
    rw [Engine.answer]
    cases hswept : Engine.swept { e with limit } with
    | error failure => exact h.of_sublist (Store.sweepUntil_sublist _ _)
    | ok e' =>
      rw [Engine.swept_eq_ok hswept]
      exact h.of_sublist List.filter_sublist
  | add id kind records =>
    refine Reply.settle_induction (P := P) h (fun _ e' hadd => ?_) _
    obtain ⟨hcheck, -, hfree, -, -, rfl, -⟩ := Engine.add_eq_ok_iff.1 hadd
    refine h.concat ⟨?_, ?_, records, hmem, rfl⟩ hfree
    · rintro rfl
      cases hcheck
    · exact (Dataset.usable_sublist kind records).length_le.trans_lt hcount
  | remove id =>
    refine Reply.settle_induction (P := P) h (fun _ e' hremove => ?_) _
    obtain ⟨-, -, -, -, rfl⟩ := Engine.remove_eq_ok_iff.1 hremove
    exact h.of_sublist List.filter_sublist
  | list => exact h
  | query j =>
    refine Reply.settle_induction (P := P) h (fun _ e' hquery => ?_) _
    obtain ⟨_, -, heq⟩ := Outcome.map_eq_ok_iff.1 hquery
    cases heq
    exact h

theorem after {e : Engine} (h : FilledBy calls e.directory) {rest : List Call}
    (hsub : ∀ call ∈ rest, call ∈ calls) (hcount : ∀ call ∈ rest, call.Countable) :
    FilledBy calls (e.after rest).directory := by
  induction rest generalizing e with
  | nil => exact h
  | cons call rest ih =>
    rw [List.forall_mem_cons] at hsub hcount
    exact ih (h.answer hsub.1 hcount.1) hsub.2 hcount.2

end FilledBy

namespace Engine

variable {e : Engine} {calls : List Call}

/-- What is listed has been added by a call, with as many usable records as the listing says. It can
be loaded where all of their numbers are finite, and only there. Each number is then what its text
is read as. -/
theorem get_of_mem_list {limit longestName : Nat} (hcalls : ∀ call ∈ calls, call.Countable)
    (he : Engine.after ⟨Directory.empty, limit, longestName⟩ calls = e) {info : DatasetInfo}
    (hinfo : info ∈ e.list) :
    ∃ records, Call.add info.id info.kind records ∈ calls ∧
      (Dataset.usable info.kind records).length = info.rows ∧
      ((∀ r ∈ Dataset.usable info.kind records, r.Finite) → Store.get e.directory info.id =
        .ok ⟨info.id, info.kind, (Dataset.usable info.kind records).map Record.reread⟩) ∧
      ((∃ r ∈ Dataset.usable info.kind records, ¬r.Finite) → Store.get e.directory info.id =
        .error (.storage (.unparsable info.id))) := by
  have hfilled : FilledBy calls e.directory :=
    he ▸ FilledBy.after (.of_empty calls) (fun _ => id) hcalls
  obtain ⟨entry, hentry, hlisted⟩ := List.mem_filterMap.1 (List.mem_mergeSort.1 hinfo)
  have hentry := List.mem_of_mem_filter hentry
  obtain ⟨data, rfl, hid, hcount, records, hmem, hrecords⟩ := hfilled.entries entry hentry
  rw [info?_entryOf hid hcount] at hlisted
  cases hlisted
  have hfile := lookup_of_mem hfilled.nodup hentry
  obtain ⟨id, kind, _⟩ := data
  obtain rfl : _ = Dataset.usable kind records := hrecords
  exact ⟨records, hmem, rfl,
    get_of_find? hfile hcount fun r hr => Dataset.kind_eq_of_mem_usable hr,
    get_of_find?_of_not_finite hfile hcount⟩

/-- One dataset is taken away again, and another has a number that is not finite. -/
theorem get_of_mem_list_after_remove :
    let taught : Record :=
      .ofSection ⟨"cpsc", "310", "", "", "1", .zero, .zero, .zero, .zero, .zero⟩
    let room : Record := .ofRoom ⟨"", "", "", "", "", "", "", "1", .zero, .zero, .posInfinity⟩
    let calls : List Call := [.add "sfu" .rooms [room], .add "ubc" .sections [room, taught, taught],
      .add "uvic" .sections [taught], .reopen 7, .remove "uvic"]
    let e := Engine.after ⟨Directory.empty, 5000, 255⟩ calls
    e.list = [⟨"sfu", .rooms, 1⟩, ⟨"ubc", .sections, 1⟩] ∧
      Store.get e.directory "sfu" = .error (.storage (.unparsable "sfu")) ∧
      Store.get e.directory "ubc" = .ok ⟨"ubc", .sections, [taught]⟩ := by
  intro taught room calls e
  have hsfu : Dataset.usable .rooms [room] = [room] := by
    rw [Dataset.usable_eq]
    decide
  have hubc : Dataset.usable .sections [room, taught, taught] = [taught] := by
    rw [Dataset.usable_eq]
    decide
  have huvic : Dataset.usable .sections [taught] = [taught] := by
    rw [Dataset.usable_eq]
    decide
  have he : e = ⟨[⟨"sfu", .rooms, [room]⟩, ⟨"ubc", .sections, [taught]⟩].map entryOf, 7, 255⟩ := by
    dsimp only [e, calls, after, List.foldl]
    rw [answer_add rfl (by decide) (by decide) rfl hsfu (List.cons_ne_nil _ _),
      answer_add rfl (by decide) (by decide) (by decide) hubc (List.cons_ne_nil _ _),
      answer_add rfl (by decide) (by decide) (by decide) huvic (List.cons_ne_nil _ _),
      answer_reopen (by simp [entryOf, isLeftover_fileName, Directory.empty])]
    rfl
  have hlist : e.list = [⟨"sfu", .rooms, 1⟩, ⟨"ubc", .sections, 1⟩] := by
    rw [he, list_eq_mergeSort (by decide) rfl (by simp)]
    exact List.mergeSort_of_pairwise (by decide)
  have hcalls : ∀ call ∈ calls, call.Countable := by
    simp [calls, Call.Countable]
  have htaught : taught.Finite := by decide
  have hback : taught.reread = taught := by decide +kernel
  have hroom : ¬room.Finite := by decide
  have hloaded {info : DatasetInfo} (hinfo : info ∈ e.list) := get_of_mem_list hcalls rfl hinfo
  obtain ⟨_, hrooms, -, -, hfailed⟩ := @hloaded ⟨"sfu", .rooms, 1⟩ (by simp [hlist])
  obtain ⟨_, hsections, -, hfound, -⟩ := @hloaded ⟨"ubc", .sections, 1⟩ (by simp [hlist])
  obtain rfl : _ = [room] := by simpa [calls] using hrooms
  obtain rfl : _ = [room, taught, taught] := by simpa [calls] using hsections
  rw [hsfu] at hfailed
  rw [hubc] at hfound
  exact ⟨hlist, hfailed ⟨room, List.mem_singleton_self _, hroom⟩, by
    simpa [hback] using hfound (by simp [htaught])⟩

/-- A number that is none is enough for a dataset that is listed and cannot be loaded. -/
theorem listed_and_not_loaded :
    let taught : Record := .ofSection
      ⟨"cpsc", "310", "", "", "1", .zero, ⟨0x7FF8000000000000⟩, .zero, .zero, .zero⟩
    let e := Engine.after ⟨Directory.empty, 5000, 255⟩ [.add "ubc" .sections [taught]]
    e.list = [⟨"ubc", .sections, 1⟩] ∧
      Store.get e.directory "ubc" = .error (.storage (.unparsable "ubc")) := by
  intro taught e
  have husable : Dataset.usable .sections [taught] = [taught] := by
    rw [Dataset.usable_eq]
    decide
  have he : e = ⟨[⟨"ubc", .sections, [taught]⟩].map entryOf, 5000, 255⟩ :=
    answer_add rfl (by decide) (by decide) rfl husable (List.cons_ne_nil _ _)
  have htaught : ¬taught.Finite := by decide
  rw [he, list_eq_mergeSort (by decide) rfl (by simp)]
  exact ⟨List.mergeSort_singleton _, get_of_find?_of_not_finite List.lookup_cons_self (by decide)
    ⟨taught, List.mem_singleton_self _, htaught⟩⟩

end Engine

end CampusQuery
