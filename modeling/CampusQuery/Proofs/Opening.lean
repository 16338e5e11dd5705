import CampusQuery.Program
import CampusQuery.Proofs.Storage.Sweeping
/-!
Opening a data directory.

A directory that is there is found again under the same names, and opening it does no more than
sweep it. What is swept holds no folder on any path, so that a second opening finds the same
directory and has nothing left to do.
-/

namespace CampusQuery

open Storage

namespace Storage.Disk

/-! ### Paths in a changed tree -/

/-- Names that lead to a folder in one tree lead to a folder in the other. -/
def Keeps (d d' : Directory) : Prop :=
  ∀ names entries, nodeAt d names = .ok (.folder entries) →
    ∃ entries', nodeAt d' names = .ok (.folder entries')

variable {d d' : Directory}

theorem nodeAt_cons_of_folder {name : String} {entries : Directory}
    (h : d.find? name = some (.folder entries)) (names : List String) :
    nodeAt d (name :: names) = nodeAt entries names := by
  rw [nodeAt, h]

/-- The way to a folder starts with a folder. -/
theorem exists_of_nodeAt_cons {name : String} {names : List String} {entries : Directory}
    (h : nodeAt d (name :: names) = .ok (.folder entries)) :
    ∃ inner, d.find? name = some (.folder inner) ∧ nodeAt inner names = .ok (.folder entries) := by
  rw [nodeAt] at h
  cases hfind : d.find? name with
  | none =>
    rw [hfind] at h
    cases h
  | some node =>
    rw [hfind] at h
    cases node with
    | folder inner => exact ⟨inner, rfl, h⟩
    | file bytes => cases names <;> cases h

theorem keeps_of_find? (h : ∀ name inner, d.find? name = some (.folder inner) →
    ∃ inner', d'.find? name = some (.folder inner') ∧ Keeps inner inner') : Keeps d d' := by
  intro names entries hnode
  cases names with
  | nil => exact ⟨d', rfl⟩
  | cons name names =>
    obtain ⟨inner, hinner, hnode⟩ := exists_of_nodeAt_cons hnode
    obtain ⟨inner', hinner', hkeeps⟩ := h name inner hinner
    rw [nodeAt_cons_of_folder hinner']
    exact hkeeps names entries hnode

theorem Keeps.refl (d : Directory) : Keeps d d :=
  fun _ entries h => ⟨entries, h⟩

theorem find?_replaceAt {name : String} {inner : Directory}
    (h : d.find? name = some (.folder inner)) (names : List String) (new : Directory)
    (other : String) :
    Directory.find? (replaceAt new (name :: names) d) other =
      if other = name then some (.folder (replaceAt new names inner)) else d.find? other := by
  rw [replaceAt, h]
  exact lookup_assign name other _ d

/-- The folder that is put at the end of a way is found there. -/
theorem nodeAt_replaceAt {names : List String} {old : Directory}
    (h : nodeAt d names = .ok (.folder old)) (new : Directory) :
    nodeAt (replaceAt new names d) names = .ok (.folder new) := by
  induction names generalizing d with
  | nil => rfl
  | cons name names ih =>
    obtain ⟨inner, hinner, hnode⟩ := exists_of_nodeAt_cons h
    have hfind := (find?_replaceAt hinner names new name).trans (if_pos rfl)
    rw [nodeAt_cons_of_folder hfind]
    exact ih hnode

/-- A folder that is replaced by itself leaves the tree as it is. -/
theorem replaceAt_self {names : List String} {entries : Directory}
    (h : nodeAt d names = .ok (.folder entries)) : replaceAt entries names d = d := by
  induction names generalizing d with
  | nil =>
    cases h
    rfl
  | cons name names ih =>
    obtain ⟨inner, hinner, hnode⟩ := exists_of_nodeAt_cons h
    rw [replaceAt, hinner]
    dsimp only
    rw [ih hnode]
    exact assign_of_lookup hinner

/-- A tree keeps its folders if the one that is replaced keeps its own. -/
theorem keeps_replaceAt {names : List String} {old new : Directory}
    (h : nodeAt d names = .ok (.folder old)) (hkeeps : Keeps old new) :
    Keeps d (replaceAt new names d) := by
  induction names generalizing d with
  | nil =>
    cases h
    exact hkeeps
  | cons name names ih =>
    obtain ⟨inner, hinner, hnode⟩ := exists_of_nodeAt_cons h
    refine keeps_of_find? fun other inner' hother => ?_
    rw [find?_replaceAt hinner]
    by_cases heq : other = name
    · subst heq
      cases hinner.symm.trans hother
      exact ⟨_, if_pos rfl, ih hnode⟩
    · exact ⟨inner', (if_neg heq).trans hother, Keeps.refl inner'⟩

/-- Files that are swept are on no way to a folder. -/
theorem keeps_kept (h : ∀ entry ∈ d, isLeftover entry.1 = true → ∃ bytes, entry.2 = .file bytes) :
    Keeps d d.kept := by
  refine keeps_of_find? fun name inner hfind => ⟨inner, ?_, Keeps.refl inner⟩
  rw [Directory.find?_kept, hfind]
  cases hleftover : isLeftover name with
  | false => rfl
  | true =>
    obtain ⟨bytes, hfile⟩ := h _ (mem_of_lookup hfind) hleftover
    cases hfile

/-! ### Folders that are there -/

variable {disk : Disk} {path : String} {names : List String}

theorem folderAt_of_nodeAt {root entries : Directory}
    (h : nodeAt root names = .ok (.folder entries)) : folderAt root names = .ok entries := by
  rw [folderAt, h]
  rfl

theorem nodeAt_of_folderAt {root entries : Directory} (h : folderAt root names = .ok entries) :
    nodeAt root names = .ok (.folder entries) := by
  rw [folderAt] at h
  obtain ⟨node, hnode, h⟩ := Outcome.bind_eq_ok_iff.1 h
  cases node with
  | folder inner =>
    cases h
    exact hnode
  | file bytes => cases h

theorem checkPath_of_resolve (h : disk.resolve path = .ok names) : checkPath path = .ok () := by
  obtain ⟨_, hcheck, -⟩ := Outcome.bind_eq_ok_iff.1 h
  exact hcheck

theorem foldlM_of_resolve (h : disk.resolve path = .ok names) :
    (steps path).foldlM disk.step (disk.origin path) = .ok names := by
  obtain ⟨_, -, hsteps⟩ := Outcome.bind_eq_ok_iff.1 h
  exact hsteps

/-- One step more on a tree that keeps its folders. -/
theorem step_of_keeps {root : Directory} (hkeeps : Keeps disk.root root) {names' : List String}
    {name : String} (h : disk.step names name = .ok names') :
    step { disk with root } names name = .ok names' := by
  obtain ⟨entries, hentries, h⟩ := Outcome.bind_eq_ok_iff.1 h
  obtain ⟨entries', hentries'⟩ := hkeeps names entries (nodeAt_of_folderAt hentries)
  exact Outcome.bind_eq_ok_iff.2 ⟨entries', folderAt_of_nodeAt hentries', h⟩

theorem foldlM_step_of_keeps {root : Directory} (hkeeps : Keeps disk.root root)
    {way start : List String} (h : way.foldlM disk.step start = .ok names) :
    way.foldlM (step { disk with root }) start = .ok names := by
  induction way generalizing start with
  | nil => exact h
  | cons name way ih =>
    rw [List.foldlM_cons] at h ⊢
    obtain ⟨middle, hmiddle, h⟩ := Outcome.bind_eq_ok_iff.1 h
    exact Outcome.bind_eq_ok_iff.2 ⟨middle, step_of_keeps hkeeps hmiddle, ih h⟩

/-- A path leads along the same names on a tree that keeps its folders. -/
theorem resolve_of_keeps {root : Directory} (hkeeps : Keeps disk.root root)
    (h : disk.resolve path = .ok names) : resolve { disk with root } path = .ok names :=
  Outcome.bind_eq_ok_iff.2
    ⟨(), checkPath_of_resolve h, foldlM_step_of_keeps hkeeps (foldlM_of_resolve h)⟩

/-- Nothing is made where a folder is. -/
theorem makeFolder_of_folder {entries : Directory} (h : disk.resolve path = .ok names)
    (hnode : nodeAt disk.root names = .ok (.folder entries)) :
    disk.makeFolder path = (disk, .ok names) := by
  have hsteps := foldlM_of_resolve h
  have hone : makeOne (disk.origin path) (steps path) disk = .ok disk := by
    rw [makeOne, hsteps, Outcome.ok_bind, hnode]
    rfl
  have hnothing : makeNothing (disk.origin path) (steps path) disk = .ok disk := by
    rw [makeNothing, hsteps, Outcome.ok_bind, folderAt_of_nodeAt hnode]
    rfl
  rw [makeFolder, checkPath_of_resolve h]
  cases endsInPlace path with
  | true => simp only [if_true, makeAfter, hnothing, Except.bind, h]
  | false => simp [makeAfter, hone, Except.bind, h]

end Storage.Disk

namespace Program

variable {settings : Settings} {disk disk' : Disk} {names names' : List String} {d : Directory}
  {e : Engine}

/-- Opening a directory that is there comes to sweeping it. -/
theorem openData_eq (hresolve : disk.resolve settings.dataDirectory = .ok names)
    (hfolder : Disk.nodeAt disk.root names = .ok (.folder d)) :
    openData settings disk =
      match (unswept settings d).swept with
      | .error failure =>
        (withData disk names (unswept settings d).partlySwept.directory,
          .error (.dataDirectory settings.dataDirectory failure))
      | .ok e => (disk, .ok (names, e)) := by
  rw [openData, Disk.makeFolder_of_folder hresolve hfolder]
  dsimp only
  rw [Outcome.mapError_ok, Outcome.ok_bind, Disk.folderAt_of_nodeAt hfolder, Outcome.mapError_ok,
    Outcome.ok_bind]
  rfl

theorem openData_eq_ok_iff (hresolve : disk.resolve settings.dataDirectory = .ok names)
    (hfolder : Disk.nodeAt disk.root names = .ok (.folder d)) :
    openData settings disk = (disk', .ok (names', e)) ↔
      disk' = disk ∧ names' = names ∧ (unswept settings d).Sweepable ∧
        e = (unswept settings d).kept := by
  rw [openData_eq hresolve hfolder]
  constructor
  · intro hopen
    cases hswept : (unswept settings d).swept with
    | error failure =>
      rw [hswept] at hopen
      cases hopen
    | ok e' =>
      rw [hswept] at hopen
      cases hopen
      exact ⟨rfl, rfl, Engine.swept_eq_ok_iff.1 hswept⟩
  · rintro ⟨rfl, rfl, hsweepable, rfl⟩
    have hswept : (unswept settings d).swept = .ok (unswept settings d).kept :=
      Engine.swept_eq_ok_iff.2 ⟨hsweepable, rfl⟩
    rw [hswept]

/-- Opening a directory that is there takes away the files whose names start with a point and end
with `.tmp`, and nothing else. No operation on datasets can tell, neither by itself nor as one of
many calls, and a second opening changes nothing. -/
theorem openData_transparent (hresolve : disk.resolve settings.dataDirectory = .ok names)
    (hfolder : Disk.nodeAt disk.root names = .ok (.folder d))
    (hopen : openData settings disk = (disk', .ok (names', e))) :
    (disk' = disk ∧ names' = names) ∧
    (∀ entry ∈ d, ['.'] <+: entry.1.toList → ['.', 't', 'm', 'p'] <:+ entry.1.toList →
      ∃ bytes, entry.2 = .file bytes) ∧
    e.directory = d.filter (fun entry =>
      ¬(['.'] <+: entry.1.toList ∧ ['.', 't', 'm', 'p'] <:+ entry.1.toList)) ∧
    (∀ id,
      Store.contains e.directory id = Store.contains d id ∧
      Store.get e.directory id = Store.get d id ∧
      Store.remove e.directory id = (Store.remove d id).map Directory.kept) ∧
    Store.list e.directory = Store.list d ∧
    (∀ calls,
      Reply.run Engine.answer e calls = Reply.run Engine.answer (unswept settings d) calls) ∧
    let swept := withData disk names e.directory
    openData settings swept = (swept, .ok (names, e)) ∧
      withData swept names e.directory = swept := by
  obtain ⟨hdisk, hnames, hsweepable, rfl⟩ := (openData_eq_ok_iff hresolve hfolder).1 hopen
  have hfiles : ∀ entry ∈ d, isLeftover entry.1 = true → ∃ bytes, entry.2 = .file bytes :=
    fun entry hentry hleftover => (hsweepable entry hentry hleftover).2
  have hswept : Disk.nodeAt (withData disk names d.kept).root names = .ok (.folder d.kept) :=
    Disk.nodeAt_replaceAt hfolder d.kept
  have hresolve' : (withData disk names d.kept).resolve settings.dataDirectory = .ok names :=
    Disk.resolve_of_keeps (Disk.keeps_replaceAt hfolder (Disk.keeps_kept hfiles)) hresolve
  have hagain := (openData_eq_ok_iff hresolve' hswept).2
    ⟨rfl, rfl, Engine.sweepable_kept (unswept settings d),
      (Engine.kept_kept (unswept settings d)).symm⟩
  refine ⟨⟨hdisk, hnames⟩, ?_, ?_, ?_, Store.list_kept d, Engine.run_answer_kept hsweepable, hagain,
    ?_⟩
  · exact fun entry hentry hpoint hmark => hfiles entry hentry (isLeftover_iff.2 ⟨hpoint, hmark⟩)
  · refine List.filter_congr fun entry _ => ?_
    rw [Bool.eq_iff_iff, Bool.not_eq_true', decide_eq_true_iff, ← isLeftover_iff,
      Bool.not_eq_true]
  · exact fun id => ⟨Store.contains_kept d id, Store.get_kept d id, Store.remove_kept d id⟩
  · exact congrArg (fun root => Disk.mk root disk.workingDirectory) (Disk.replaceAt_self hswept)

/-- Names that almost are leftovers stay, whatever stands under them. -/
theorem openData_transparent_of_near_misses :
    let d : Directory := [(".json", .file .empty), (".tmp", .file .empty), ("x.tmp", .folder []),
      (".a.tmp.json", .folder []), (".a.tmp", .file .empty), ("756263.json", .file .empty)]
    let disk : Disk := ⟨[("data", .folder d)], []⟩
    ∃ e, openData ⟨"data/x.tmp/..", 5000⟩ disk = (disk, .ok (["data"], e)) ∧
      e.directory.names = [".json", "x.tmp", ".a.tmp.json", "756263.json"] ∧
      Store.contains e.directory "ubc" = Store.contains d "ubc" ∧
      openData ⟨"data/x.tmp/..", 5000⟩ (withData disk ["data"] e.directory) =
        (withData disk ["data"] e.directory, .ok (["data"], e)) := by
  intro d disk
  have hopen : openData ⟨"data/x.tmp/..", 5000⟩ disk =
      (disk, .ok (["data"], (unswept ⟨"data/x.tmp/..", 5000⟩ d).kept)) := by rfl
  obtain ⟨-, -, -, hids, -, -, hagain, -⟩ := openData_transparent (by rfl) (by rfl) hopen
  exact ⟨_, hopen, by decide, (hids "ubc").1, hagain⟩

end Program

end CampusQuery
