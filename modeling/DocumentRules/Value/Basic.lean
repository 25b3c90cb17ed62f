import DocumentRules.Json.Basic

/-!
# Values

What a rule reads or produces is a document value or *nothing at all*: a missing field, a path that
leads nowhere, an evaluation that has not begun. Nothing is kept apart from null throughout — null
is a value that stands in a document, and the language has operators that tell the two apart.

Only where a value has to enter a document does nothing become null (`Value.toJson`).
-/

set_option autoImplicit false

namespace DocumentRules

/-- A document value, or nothing. -/
inductive Value where
  | undefined
  | json (value : Json)

namespace Value

/-- What a look-up found. -/
def ofOption : Option Json → Value
  | some v => .json v
  | none => .undefined

/-- The document value, if there is one. -/
def toOption : Value → Option Json
  | .json v => some v
  | .undefined => none

/-- The value as it enters a document. -/
def toJson : Value → Json
  | .json v => v
  | .undefined => .null

/-- A truth value. -/
def ofBool (b : Bool) : Value :=
  .json (.bool b)

/-- A text. -/
def ofText (text : String) : Value :=
  .json (.str text)

/-- An array. -/
def ofItems (items : List Json) : Value :=
  .json (.arr items)

/-- The items of an array; nothing else has items. -/
def items? : Value → Option (List Json)
  | .json (.arr items) => some items
  | _ => none

/-- Whether there is nothing. -/
def isUndefined : Value → Bool
  | .undefined => true
  | .json _ => false

/-- Whether the value is null, which nothing is not. -/
def isNull : Value → Bool
  | .json .null => true
  | _ => false

/-- Whether the value counts as true where a truth value is wanted: not nothing, null, false, a zero
or an empty text. Arrays and objects count as true even when empty. -/
def truthy : Value → Bool
  | .undefined => false
  | .json .null => false
  | .json (.bool b) => b
  | .json (.num n) => !(n.toFloat == 0) && !n.toFloat.isNaN
  | .json (.str text) => text != ""
  | .json (.arr _) => true
  | .json (.obj _) => true

end Value

end DocumentRules
