import CampusQuery.Answer.Row
/-!
The order of an answer: rows are compared by the cells under the sort keys, a missing cell being
below every other, and rows that tie on every key stay in their order.
-/

namespace CampusQuery.SortOrder

/-- Compares cells that may be missing. -/
def compareCells : Option Cell → Option Cell → Ordering
  | some x, some y => x.compare y
  | none, some _ => .lt
  | some _, none => .gt
  | none, none => .eq

/-- Compares rows by the first key on which they differ. -/
def compareKeys (keys : List String) (a b : Row) : Ordering :=
  match keys with
  | [] => .eq
  | key :: keys => (compareCells (a.get? key) (b.get? key)).then (compareKeys keys a b)

/-- Compares rows in the direction of the order. -/
def compareRows (order : SortOrder) (a b : Row) : Ordering :=
  match order.direction with
  | .up => compareKeys order.keys a b
  | .down => (compareKeys order.keys a b).swap

/-- The rows in order. -/
def sort (order : SortOrder) (rows : List Row) : List Row :=
  rows.mergeSort fun a b => (order.compareRows a b).isLE

end CampusQuery.SortOrder
