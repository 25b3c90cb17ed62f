import DocumentRules.Json.Reader
import DocumentRules.Rule.Basic
import DocumentRules.Value.Arithmetic

/-!
# Operators on values in hand

Casts, the operators that ask about one value, the arithmetic on one number, and the
operators on two values. None of them looks at a document, so they are functions from
values to a value or a fault.

A cast to a document reads the *text* of the value: the text of an object is its printed form, so an
object comes back as it is, and the text of an array has lost its brackets, so most arrays do not.
-/

set_option autoImplicit false

namespace DocumentRules

/-- Casts a value. -/
def CastTarget.apply (target : CastTarget) (value : Value) : Except Fault Value :=
  match target with
  | .text => .ok (.ofText value.text)
  | .boolean => .ok (.ofBool value.truthy)
  | .number =>
    match value.numeric? with
    | some x => .ok (.json (Json.ofFloat x))
    | none => .error (.domain (.castToNumber value))
  | .document =>
    match Json.read? value.text with
    | some doc => .ok (.json doc)
    | none => .error (.domain (.castToDocument value.text))
  | .unsupported name => .error (.domain (.castUnsupported name))

/-- Applies an operator that looks at one value. -/
def Standalone.apply (operator : Standalone) (value : Value) : Except Fault Value :=
  match operator with
  | .isUndefined => .ok (.ofBool value.isUndefined)
  | .isNotUndefined => .ok (.ofBool (!value.isUndefined))
  | .isNull => .ok (.ofBool value.isNull)
  | .isNotNull => .ok (.ofBool (!value.isNull))
  | .abs =>
    match value.numeric? with
    | some x => finiteResult (Operator.symbol operator) x.abs
    | none => .error (.domain (.absOfNonNumber value))

/-- Applies arithmetic on one number. -/
def SelfArithmetic.apply (operator : SelfArithmetic) (value : Value) : Except Fault Value :=
  match value.numeric? with
  | none => .error (.domain (.nonNumericOperand (Operator.symbol operator) value))
  | some x =>
    match operator with
    | .sqrt => finiteResult (Operator.symbol operator) x.sqrt

/-- Applies an operator to two values. -/
def BinaryOperator.apply (operator : BinaryOperator) (left right : Value) : Except Fault Value :=
  match operator with
  | .comparison relation => .ok (.ofBool (relation.holds left right))
  | .inversion negated => .ok (.ofBool (negated.holds left right))
  | .arithmetic .add => left.add right
  | .arithmetic calculation => do
    finiteResult (Operator.symbol calculation) (← calculation.apply left right)

end DocumentRules
