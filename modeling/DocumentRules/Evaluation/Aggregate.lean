import DocumentRules.Evaluation.Slice
import DocumentRules.Evaluation.Sort

/-!
# Aggregates

An aggregate makes one value out of an array that has at least one item. The first three work on any
values: the least and the greatest are found in one pass that keeps an item until another beats it,
and a sum is `+` from the left, which may well join texts. Mean and median need items that all have
a numeric reading. The mode is the commonest *text* among the items, and is a text itself.
-/

set_option autoImplicit false

namespace DocumentRules

/-- Goes through values and keeps one until another beats it. -/
def bestOf (beats : Value → Value → Bool) (first : Value) (rest : List Value) : Value :=
  rest.foldl (fun best value => if beats value best then value else best) first

/-- Adds values from left to right. -/
def sumFrom : Value → List Value → Except Fault Value
  | total, [] => .ok total
  | total, value :: rest => do
    let total ← total.add value
    sumFrom total rest

/-- The numbers that values are or hold; the first value that has none is reported. -/
def numbersFor (operator : String) : List Value → Except Fault (List Float)
  | [] => .ok []
  | value :: rest =>
    match value.numeric? with
    | none => .error (.domain (.nonNumericElement operator value))
    | some x => do
      let numbers ← numbersFor operator rest
      return x :: numbers

/-- The middle one of sorted numbers, or halfway between the two middle ones. -/
def middle (sorted : List Float) : Float :=
  let half := sorted.length / 2
  if sorted.length % 2 = 0 then (sorted.getD (half - 1) 0 + sorted.getD half 0) / 2
  else sorted.getD half 0

/-- Numbers in ascending order. -/
def ascending (numbers : List Float) : List Float :=
  Id.run (insertionSort (fun a b => pure (decide (b < a))) numbers)

/-- What counting has come to: the texts so far, and the leading one with its count. -/
structure Tally where
  seen : List String
  leader : Option (String × Nat)

/-- Counts one more text. It takes the lead only by passing the leader, not by drawing level. -/
def Tally.add (tally : Tally) (text : String) : Tally :=
  let count := tally.seen.count text + 1
  let leads := match tally.leader with
    | none => true
    | some (_, most) => decide (most < count)
  ⟨text :: tally.seen, if leads then some (text, count) else tally.leader⟩

/-- The commonest text; of equally common ones, the one that got there first. -/
def commonest (texts : List String) : Option String :=
  (texts.foldl Tally.add ⟨[], none⟩).leader.map Prod.fst

namespace Aggregate

/-- An aggregate of values, of which there is at least one. -/
def ofValues (operator : Aggregate) (first : Value) (rest : List Value) : Except Fault Value :=
  let symbol := Operator.symbol operator
  match operator with
  | .min => .ok (bestOf Value.lt first rest)
  | .max => .ok (bestOf Value.gt first rest)
  | .sum => sumFrom first rest
  | .mean => do
    let numbers ← numbersFor symbol (first :: rest)
    finiteResult symbol (numbers.foldl (· + ·) 0 / Float.ofNat numbers.length)
  | .median => do
    let numbers ← numbersFor symbol (first :: rest)
    finiteResult symbol (middle (ascending numbers))
  | .mode =>
    match commonest ((first :: rest).map Value.text) with
    | some text => .ok (.ofText text)
    | none => .ok (.json .null)

/-- An aggregate of an array. -/
def apply (operator : Aggregate) (value : Value) : Except Fault Value := do
  let symbol := Operator.symbol operator
  match ← arrayFor symbol value with
  | [] => .error (.domain (.emptyArray symbol))
  | first :: rest => operator.ofValues (.json first) (rest.map .json)

end Aggregate

end DocumentRules
