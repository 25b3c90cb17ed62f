import DocumentRules.Value.Basic

/-!
# Strict equality

Two values are equal when they are of one kind and say the same: numbers by what they are worth, so
`1` equals `1.0`, arrays item by item, objects field by field. No kind is ever converted into
another, and nothing is equal to nothing only.

Objects are tables in the order of their keys, so two objects with the same keys have them at the
same places and the comparison may go through both at once. It is structural for that reason, and
being an equivalence needs no counting of keys.
-/

set_option autoImplicit false

namespace DocumentRules

/-- Two numbers are worth the same. -/
def Number.sameWorth (a b : Number) : Bool :=
  a.toFloat == b.toFloat

namespace Json

mutual

/-- Strict equality of document values. -/
def strictEq : Json → Json → Bool
  | .null, .null => true
  | .bool a, .bool b => a == b
  | .num a, .num b => a.sameWorth b
  | .str a, .str b => a == b
  | .arr a, .arr b => itemsEq a b
  | .obj a, .obj b => fieldsEq a b
  | _, _ => false
termination_by structural a => a

/-- The same number of items, equal in pairs. -/
def itemsEq : List Json → List Json → Bool
  | [], [] => true
  | a :: as, b :: bs => strictEq a b && itemsEq as bs
  | _, _ => false
termination_by structural a => a

/-- The same keys, holding equal values. -/
def fieldsEq : List (String × Json) → List (String × Json) → Bool
  | [], [] => true
  | (k, a) :: as, (l, b) :: bs => k == l && strictEq a b && fieldsEq as bs
  | _, _ => false
termination_by structural a => a

end

end Json

namespace Value

/-- Strict equality of values. -/
def strictEq : Value → Value → Bool
  | .undefined, .undefined => true
  | .json a, .json b => a.strictEq b
  | _, _ => false

end Value

end DocumentRules
