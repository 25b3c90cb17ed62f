import DocumentRules.Evaluation.Aggregate
import DocumentRules.Evaluation.Operation
import DocumentRules.Proofs.Result

/-!
# The faults of operators

An operator works on values that it is given and knows nothing of documents. When it fails, a value
or an operand was of the wrong sort, and that is always a domain fault. The domain faults that are
left, `cannotSet` and `unknownDocument`, are about the place of a write, and no operator has one.

`ByValue` says this of a computation. It is kept by putting computations together, so each operator
needs no more than a look at its branches.
-/

set_option autoImplicit false

namespace DocumentRules

/-- A domain fault about a value, and not about the place of a write. -/
def Fault.OfValue : Fault → Prop
  | .domain (.cannotSet _ _) => False
  | .domain (.unknownDocument _) => False
  | .domain _ => True
  | _ => False

/-- If the computation fails, a value is at fault. -/
def ByValue {α : Type} (result : Except Fault α) : Prop :=
  ∀ fault, result = .error fault → fault.OfValue

namespace ByValue

variable {α β : Type}

theorem ok (a : α) : ByValue (.ok a) := by
  intro fault h
  cases h

theorem error {fault : Fault} (h : fault.OfValue) : ByValue (.error fault : Except Fault α) := by
  intro fault' h'
  cases h'
  exact h

theorem bind {x : Except Fault α} {f : α → Except Fault β} (hx : ByValue x)
    (hf : ∀ a, ByValue (f a)) : ByValue (x >>= f) := by
  intro fault h
  rcases bind_eq_error.mp h with hfault | ⟨a, -, hfault⟩
  · exact hx fault hfault
  · exact hf a fault hfault

theorem map {x : Except Fault α} (h : ByValue x) (f : α → β) : ByValue (x.map f) := by
  cases x with
  | error fault => exact .error (h fault rfl)
  | ok a => exact .ok (f a)

end ByValue

open ByValue

/-! ## Values in hand -/

theorem finiteResult_byValue (operator : String) (x : Float) :
    ByValue (finiteResult operator x) := by
  unfold finiteResult
  split
  · exact .ok _
  · exact .error trivial

theorem Value.add_byValue (a b : Value) : ByValue (a.add b) := by
  unfold Value.add
  dsimp only
  split
  · exact .ok _
  · split
    · exact finiteResult_byValue _ _
    · exact .error trivial

theorem Arithmetic.apply_byValue (operator : Arithmetic) (left right : Value) :
    ByValue (operator.apply left right) := by
  unfold Arithmetic.apply
  split
  · split
    · exact .error trivial
    · split
      · exact .ok _
      · exact .error trivial
  · exact .error trivial

theorem CastTarget.apply_byValue (target : CastTarget) (value : Value) :
    ByValue (target.apply value) := by
  unfold CastTarget.apply
  split
  · exact .ok _
  · exact .ok _
  · split
    · exact .ok _
    · exact .error trivial
  · split
    · exact .ok _
    · exact .error trivial
  · exact .error trivial

theorem Standalone.apply_byValue (operator : Standalone) (value : Value) :
    ByValue (operator.apply value) := by
  unfold Standalone.apply
  cases operator with
  | abs =>
    dsimp only
    split
    · exact finiteResult_byValue _ _
    · exact .error trivial
  | _ => exact .ok _

theorem SelfArithmetic.apply_byValue (operator : SelfArithmetic) (value : Value) :
    ByValue (operator.apply value) := by
  unfold SelfArithmetic.apply
  split
  · exact .error trivial
  · exact finiteResult_byValue _ _

theorem BinaryOperator.apply_byValue (operator : BinaryOperator) (left right : Value) :
    ByValue (operator.apply left right) := by
  unfold BinaryOperator.apply
  split
  · exact .ok _
  · exact .ok _
  · exact Value.add_byValue left right
  · exact (Arithmetic.apply_byValue _ _ _).bind fun x => finiteResult_byValue _ x

/-! ## Arrays -/

theorem arrayFor_byValue (operator : String) (value : Value) :
    ByValue (arrayFor operator value) := by
  unfold arrayFor
  split
  · exact .ok _
  · exact .error trivial

theorem indexField_byValue (operator field : String) (index : Json) :
    ByValue (indexField operator field index) := by
  unfold indexField
  split
  · exact .ok _
  · exact .error trivial

theorem positionField_byValue (operator field : String) (length : Nat) (index : Json) :
    ByValue (positionField operator field length index) :=
  (indexField_byValue operator field index).map (position length)

theorem sliceBounds_byValue (length : Nat) (first last : Option Json) :
    ByValue (sliceBounds length first last) := by
  unfold sliceBounds
  split
  · exact .ok _
  · exact (positionField_byValue _ _ _ _).bind fun _ => .ok _
  · exact (positionField_byValue _ _ _ _).bind fun _ => .ok _
  · exact (positionField_byValue _ _ _ _).bind fun _ =>
      (positionField_byValue _ _ _ _).bind fun _ => .ok _

theorem slice_byValue (first last : Option Json) (value : Value) :
    ByValue (slice first last value) :=
  ((arrayFor_byValue _ _).bind fun _ => (sliceBounds_byValue _ _ _).bind fun _ => .ok _).map _

theorem splice_byValue (first deleted inserted : Option Json) (value : Value) :
    ByValue (splice first deleted inserted value) := by
  have hdeleted : ∀ length start, ByValue (deletedCount length start deleted) := by
    intro length start
    cases deleted with
    | none => exact .ok _
    | some count => exact (indexField_byValue _ _ _).bind fun _ => .ok _
  have hinserted : ByValue (insertedItems inserted) := by
    unfold insertedItems
    split
    · exact .ok _
    · exact .ok _
    · exact .error trivial
  refine ByValue.map ?_ _
  cases first with
  | none => exact .ok _
  | some first =>
    refine (arrayFor_byValue _ _).bind fun _ => (positionField_byValue _ _ _ _).bind fun _ =>
      (hdeleted _ _).bind fun count => ?_
    cases count with
    | none => exact .ok _
    | some count => exact hinserted.bind fun _ => .ok _

/-! ## Sorting -/

section Sorting

variable {α : Type} {comesAfter : α → α → Except Fault Bool}

theorem insertBehind_byValue (h : ∀ a b, ByValue (comesAfter a b)) (x : α) (placed : List α) :
    ByValue (insertBehind comesAfter x placed) := by
  induction placed with
  | nil => exact .ok _
  | cons last before ih =>
    refine (h last x).bind fun after => ?_
    cases after with
    | true => exact ih.bind fun _ => .ok _
    | false => exact .ok _

theorem insertionSort_byValue (h : ∀ a b, ByValue (comesAfter a b)) (xs : List α) :
    ByValue (insertionSort comesAfter xs) := by
  have hplaced : ∀ placed, ByValue (placeAll comesAfter xs placed) := by
    induction xs with
    | nil => intro placed; exact .ok _
    | cons x rest ih =>
      intro placed
      exact (insertBehind_byValue h x placed).bind ih
  exact (hplaced []).bind fun _ => .ok _

end Sorting

theorem SortComparison.comesAfter_byValue (comparison : SortComparison) (a b : Keyed) :
    ByValue (comparison.comesAfter a b) := by
  have hcompare : ByValue (comparison.compare a b) := by
    cases comparison with
    | order relation => exact .ok _
    | arithmetic calculation =>
      exact (calculation.apply_byValue _ _).bind fun _ => .ok _
  exact hcompare.bind fun _ => .ok _

/-! ## Aggregates -/

theorem sumFrom_byValue (values : List Value) : ∀ total, ByValue (sumFrom total values) := by
  induction values with
  | nil => intro total; exact .ok _
  | cons value rest ih =>
    intro total
    exact (total.add_byValue value).bind ih

theorem numbersFor_byValue (operator : String) (values : List Value) :
    ByValue (numbersFor operator values) := by
  induction values with
  | nil => exact .ok _
  | cons value rest ih =>
    unfold numbersFor
    split
    · exact .error trivial
    · exact ih.bind fun _ => .ok _

theorem Aggregate.ofValues_byValue (operator : Aggregate) (first : Value) (rest : List Value) :
    ByValue (operator.ofValues first rest) := by
  unfold Aggregate.ofValues
  cases operator with
  | min | max => exact .ok _
  | sum => exact sumFrom_byValue rest first
  | mean | median =>
    exact (numbersFor_byValue _ _).bind fun _ => finiteResult_byValue _ _
  | mode =>
    dsimp only
    split
    · exact .ok _
    · exact .ok _

theorem Aggregate.apply_byValue (operator : Aggregate) (value : Value) :
    ByValue (operator.apply value) := by
  refine (arrayFor_byValue _ value).bind fun items => ?_
  cases items with
  | nil => exact .error trivial
  | cons first rest => exact operator.ofValues_byValue _ _

end DocumentRules
