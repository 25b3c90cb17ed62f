import DocumentRules.Value.Arithmetic

/-!
# Sorting

The order of values is not transitive, so what sorting gives depends on which pairs are compared,
and the comparison itself may fail. Both make the algorithm part of the meaning: an insertion sort.
Each element in turn is compared with the ones already placed, from the last one backward, and stops
behind the first one that does not have to come after it. Equal elements therefore keep their order,
and for any comparison at all the result has no two neighbours that are the wrong way round.

The placed elements are held last first (`insertBehind`), so that "backward" is the direction of the
list.
-/

set_option autoImplicit false

namespace DocumentRules

variable {α : Type} {m : Type → Type} [Monad m]

/-- Places an element among those already placed, which are given last first. -/
def insertBehind (comesAfter : α → α → m Bool) (x : α) : List α → m (List α)
  | [] => pure [x]
  | last :: before => do
    if ← comesAfter last x then
      let placed ← insertBehind comesAfter x before
      return last :: placed
    else return x :: last :: before

/-- Places elements one after another; the result is last first. -/
def placeAll (comesAfter : α → α → m Bool) : List α → List α → m (List α)
  | [], placed => pure placed
  | x :: rest, placed => do
    let placed ← insertBehind comesAfter x placed
    placeAll comesAfter rest placed

/-- The elements sorted by insertion; `comesAfter a b` says that `a` belongs behind `b`. -/
def insertionSort (comesAfter : α → α → m Bool) (xs : List α) : m (List α) := do
  return (← placeAll comesAfter xs []).reverse

/-- An element to be sorted: its place before sorting, the item itself, and
the key it is sorted by. -/
structure Keyed where
  place : Nat
  item : Json
  key : Value

/-- The order of two values as far as they have one; values without an order count as equal. -/
def Value.ordering (a b : Value) : Ordering :=
  if a.gt b then .gt else if a.lt b then .lt else .eq

namespace SortOrder

/-- The order of two elements. The orders that reverse ties put the later element first. -/
def compare (order : SortOrder) (a b : Keyed) : Ordering :=
  match order with
  | .ascending => a.key.ordering b.key
  | .descending => b.key.ordering a.key
  | .ascendingTiesReversed => (a.key.ordering b.key).then (Ord.compare b.place a.place)
  | .descendingTiesReversed => (b.key.ordering a.key).then (Ord.compare b.place a.place)

end SortOrder

namespace SortComparison

/-- The order of two elements: by an order of values, or by the sign of an arithmetic result. -/
def compare (comparison : SortComparison) (a b : Keyed) : Except Fault Ordering :=
  match comparison with
  | .order relation => .ok (relation.compare a b)
  | .arithmetic calculation => do
    let result ← calculation.apply a.key b.key
    return if result < 0 then .lt else if 0 < result then .gt else .eq

/-- Whether `a` belongs behind `b`. -/
def comesAfter (comparison : SortComparison) (a b : Keyed) : Except Fault Bool := do
  return (← comparison.compare a b) == .gt

end SortComparison

end DocumentRules
