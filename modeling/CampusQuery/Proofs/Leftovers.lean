import CampusQuery.Proofs.Steps
import CampusQuery.Proofs.Storage.Publishing
/-!
Leftovers that are taken away one by one.

The directory is read entry by entry, and a leftover is taken away when it is met. That ends at the
first that stays, as the engine has it, or earlier if an operation is refused. Some leftovers are
gone then, and nothing else.
-/

namespace CampusQuery

open Storage

namespace Storage

namespace Directory

variable {done rest : Directory} {entry : String × Node}

end Directory

end Storage

namespace Engine

variable {e : Engine} {refused : FileStep → Option FileFault}

/-- What taking away the leftovers of some entries leaves, and how it ends: as for an engine, or
earlier because an operation is refused. -/
inductive Sweeps (refused : FileStep → Option FileFault) (e : Engine) (entries : Directory) :
    Directory → Except FileFault Unit → Prop
  | ended {outcome : Except FileFault Unit}
      (hall : (entries.filter fun entry => isLeftover entry.1).forM e.removable =
        outcome.mapError .file) :
      Sweeps refused e entries (Store.sweepUntil e.stays entries) outcome
  | refused {d : Directory} (hsub : d.Sublist entries) (hkept : d.kept = entries.kept)
      {step : FileStep} {fault : FileFault} (hstep : refused step = some fault) :
      Sweeps refused e entries d (.error fault)

namespace Sweeps

variable {entry : String × Node} {entries d : Directory} {outcome : Except FileFault Unit}

/-- Before what is no leftover. -/
theorem keep (hleftover : isLeftover entry.1 = false) (h : Sweeps refused e entries d outcome) :
    Sweeps refused e (entry :: entries) (entry :: d) outcome := by
  cases h with
  | ended hall =>
    have huntil : Store.sweepUntil e.stays (entry :: entries) =
        entry :: Store.sweepUntil e.stays entries := by
      rw [Store.sweepUntil, hleftover, if_neg Bool.false_ne_true]
    rw [← huntil]
    refine .ended ?_
    rwa [List.filter_cons_of_neg (by simp [hleftover])]
  | refused hsub hkept hstep =>
    refine .refused (hsub.cons_cons entry) ?_ hstep
    rw [Directory.kept_cons, Directory.kept_cons, hkept]

section

variable (hleftover : isLeftover entry.1 = true)
include hleftover

theorem filter_cons_of_leftover :
    (entry :: entries).filter (fun entry => isLeftover entry.1) =
      entry :: entries.filter fun entry => isLeftover entry.1 :=
  List.filter_cons_of_pos hleftover

/-- Behind a leftover that has been taken away. -/
theorem take (hremovable : e.removable entry = .ok ()) (h : Sweeps refused e entries d outcome) :
    Sweeps refused e (entry :: entries) d outcome := by
  cases h with
  | ended hall =>
    have huntil : Store.sweepUntil e.stays (entry :: entries) =
        Store.sweepUntil e.stays entries := by
      rw [Store.sweepUntil, hleftover, if_pos rfl, stays, hremovable]
      rfl
    rw [← huntil]
    refine .ended ?_
    rw [filter_cons_of_leftover hleftover, List.forM, hremovable]
    exact hall
  | refused hsub hkept hstep =>
    refine .refused (hsub.cons entry) ?_ hstep
    rw [Directory.kept_cons, hleftover, if_pos rfl, hkept]

/-- At a leftover that stays. -/
theorem stop {fault : FileFault} (hremovable : e.removable entry = .error (.file fault)) :
    Sweeps refused e (entry :: entries) (entry :: entries) (.error fault) := by
  have huntil : Store.sweepUntil e.stays (entry :: entries) = entry :: entries := by
    rw [Store.sweepUntil, hleftover, if_pos rfl, stays, hremovable]
    rfl
  have hended : Sweeps refused e (entry :: entries) (Store.sweepUntil e.stays (entry :: entries))
      (.error fault) := by
    refine .ended ?_
    rw [filter_cons_of_leftover hleftover, List.forM, hremovable]
    rfl
  rwa [huntil] at hended

end

end Sweeps

end Engine

end CampusQuery
