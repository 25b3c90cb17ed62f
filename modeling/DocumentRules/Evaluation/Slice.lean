import DocumentRules.Fault

/-!
# Parts of an array

Indices are numbers as rules spell them: fractions are cut off, negative ones count from the end,
and whatever lies outside the array is moved to its nearer end. `position` is that rule. It works
on doubles from the index to the last step, where the position becomes a count again, and a sum of
doubles may be rounded.

The ranges that come out of this are not moved into the array a second time. A range that the array
does not have, or a difference below zero, stops the whole program, and here it has no result:
`range?`, `exchange?` and `difference?` are partial, and so are `slice?` and `splice?`. Nothing but
the clamps in `position` and `deletedCount` keeps them from stopping.

Which of two bad operands is reported is fixed by the order in which they are looked at: the array,
then the indices from left to right, then the items.
-/

set_option autoImplicit false

namespace DocumentRules

/-- The array that an operator works on. -/
def arrayFor (operator : String) (value : Value) : Except Fault (List Json) :=
  match value.items? with
  | some items => .ok items
  | none => .error (.domain (.notArray operator value))

/-! ## Ranges -/

/-- The difference of two counts; none below zero. -/
def difference? (a b : Nat) : Option Nat :=
  if b ≤ a then some (a - b) else none

/-- The items from one position up to another, which is left out; none if the array has no such
range. -/
def range? (items : List Json) (start stop : Nat) : Option (List Json) :=
  if start ≤ stop ∧ stop ≤ items.length then some ((items.take stop).drop start) else none

/-- The array with other items in the place of a range; none if it has no such range. -/
def exchange? (items : List Json) (start stop : Nat) (others : List Json) : Option (List Json) :=
  if start ≤ stop ∧ stop ≤ items.length then
    some (items.take start ++ others ++ items.drop stop)
  else none

/-! ## Indices -/

/-- The position in an array of a given length that an index means. -/
def position (length : Nat) (index : Float) : Nat :=
  let whole := Double.trunc index
  let place :=
    if whole < 0 then max (Float.ofNat length + whole) 0 else min whole (Float.ofNat length)
  place.toUInt64.toNat

/-- The number in an index field. -/
def indexField (operator field : String) : Json → Except Fault Float
  | .num n => .ok n.toFloat
  | other => .error (.domain (.indexNotNumber field operator other))

/-- The position that an index field means in an array of a given length. -/
def positionField (operator field : String) (length : Nat) (index : Json) : Except Fault Nat :=
  (indexField operator field index).map (position length)

/-- Where a slice begins and ends. One index alone is where it begins, whichever field it is in, and
without any the slice is the whole array. -/
def sliceBounds (length : Nat) : Option Json → Option Json → Except Fault (Nat × Nat)
  | none, none => .ok (0, length)
  | some first, none => do
    return (← positionField "slice" "startIndex" length first, length)
  | none, some last => do
    return (← positionField "slice" "endIndex" length last, length)
  | some first, some last => do
    let start ← positionField "slice" "startIndex" length first
    let stop ← positionField "slice" "endIndex" length last
    return (start, stop)

/-- How many items are taken out at `start`: as many as asked for, from none to all that follow. -/
def deletedCount (length start : Nat) : Option Json → Except Fault (Option Nat)
  | none => .ok (difference? length start)
  | some count => do
    let n ← indexField "splice" "deleteCount" count
    return (difference? length start).bind fun rest =>
      (Double.clamp? 0 (Float.ofNat rest) (Double.trunc n)).map fun kept => kept.toUInt64.toNat

/-- The items that are put in. -/
def insertedItems : Option Json → Except Fault (List Json)
  | none => .ok []
  | some (.arr items) => .ok items
  | some other => .error (.domain (.itemsNotArray other))

/-! ## Slices and splices -/

/-- The items between the bounds of a slice. Bounds in the wrong order have nothing between them,
and no range is asked for. -/
def sliced? (items : List Json) (bounds : Nat × Nat) : Option (List Json) :=
  if bounds.1 < bounds.2 then range? items bounds.1 bounds.2 else some []

/-- The items from the first position up to the last, which is left out. -/
def slice? (first last : Option Json) (value : Value) : Except Fault (Option Value) := do
  let items ← arrayFor "slice" value
  let bounds ← sliceBounds items.length first last
  return (sliced? items bounds).map .ofItems

/-- Takes items out at a position and puts others there. Without a position nothing is asked of the
value, and it stays as it is. -/
def splice? (first deleted inserted : Option Json) (value : Value) :
    Except Fault (Option Value) :=
  match first with
  | none => .ok (some value)
  | some first => do
    let items ← arrayFor "splice" value
    let start ← positionField "splice" "startIndex" items.length first
    let some count ← deletedCount items.length start deleted | return none
    let added ← insertedItems inserted
    return (exchange? items start (start + count) added).map .ofItems

/-- What an evaluation goes on with after a step on an array. One that is stopped does not go on, so
no rule sees the empty array that stands for that here. -/
def orStopped (result : Except Fault (Option Value)) : Except Fault Value :=
  result.map fun part => part.getD (.ofItems [])

/-- A slice, as a step of an evaluation. -/
def slice (first last : Option Json) (value : Value) : Except Fault Value :=
  orStopped (slice? first last value)

/-- A splice, as a step of an evaluation. -/
def splice (first deleted inserted : Option Json) (value : Value) : Except Fault Value :=
  orStopped (splice? first deleted inserted value)

end DocumentRules
