import DocumentRules.Fault
import DocumentRules.Value.Order

/-!
# Arithmetic on values

Results are doubles, and one that is not finite is a fault of the operator, never a value. A whole
result comes back as an integer (`Json.ofFloat`).

`+` stands apart from the other five. It looks at primitives, as the order does: where either side
is a text, an array or an object, the two texts are joined; otherwise the numbers that stand for the
sides are added, so null and truth values take part. The others take numbers and texts that hold
one, and nothing else (`Value.numeric?`). The two readings are kept apart because they answer
different questions: "may this be calculated with?" and "where does this stand beside a number?".
-/

set_option autoImplicit false

namespace DocumentRules

/-- A finite result as a value. -/
def finiteResult (operator : String) (x : Float) : Except Fault Value :=
  if x.isFinite then .ok (.json (Json.ofFloat x)) else .error (.domain (.notFinite operator))

/-- `+` on values. -/
def Value.add (a b : Value) : Except Fault Value :=
  let p := a.primitive
  let q := b.primitive
  if p.isText || q.isText then .ok (.ofText (p.toText ++ q.toText))
  else
    match p.number?, q.number? with
    | some x, some y => finiteResult (Operator.symbol Arithmetic.add) (x + y)
    | _, _ => .error (.domain (.notFinite (Operator.symbol Arithmetic.add)))

/-- The finite number that a value is or that its text holds. -/
def Value.numeric? : Value → Option Float
  | .json (.num n) => if n.toFloat.isFinite then some n.toFloat else none
  | .json (.str text) => numericText? text
  | _ => none

/-- The exact remainder of a division toward zero; it has the sign of the dividend. -/
def remainder? (a b : Float) : Option Float :=
  match Binary.ofFloat? a, Binary.ofFloat? b with
  | some a, some b => some (a.rem b).toFloat
  | _, _ => none

namespace Arithmetic

/-- The double that an operator makes of two, if it makes one. -/
def compute? : Arithmetic → Float → Float → Option Float
  | .add, a, b => some (a + b)
  | .sub, a, b => some (a - b)
  | .mul, a, b => some (a * b)
  | .div, a, b => some (a / b)
  | .rem, a, b => remainder? a b
  | .pow, a, b => some (Float.pow a b)

/-- The operators that cannot take zero on the right. -/
def divides : Arithmetic → Bool
  | .div => true
  | .rem => true
  | _ => false

/-- An operator on two values with a numeric reading. A zero divisor is refused before anything is
computed, and a result that is not finite after. -/
def apply (operator : Arithmetic) (left right : Value) : Except Fault Float :=
  match left.numeric?, right.numeric? with
  | some a, some b =>
    if operator.divides && b == 0 then
      .error (.domain (.zeroDivisor (Operator.symbol operator) left))
    else
      match (operator.compute? a b).filter Float.isFinite with
      | some result => .ok result
      | none => .error (.domain (.notFinite (Operator.symbol operator)))
  | _, _ => .error (.domain (.nonNumericOperands (Operator.symbol operator) left right))

end Arithmetic

end DocumentRules
