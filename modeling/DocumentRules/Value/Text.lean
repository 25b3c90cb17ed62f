import DocumentRules.Json.Printer
import DocumentRules.Value.Basic

/-!
# The text of a value

Every value has one canonical text, which is what casting to a string gives and what conditions
compare when they cast. A text is itself, a number is written plainly, an object is its printed
form, and an array is the texts of its items between commas, where a null item is empty. Items that
are arrays are written by the same rule and without brackets, so the text of an array does not show
how it nests.

Inside an object the printed form takes over altogether: the same double is `1` as the text of a
number and `1.0` inside the text of an object.

`describe` is how messages show a value. It differs from the text where the text would hide what
the value is: a string gets quotes and an array its brackets.
-/

set_option autoImplicit false

namespace DocumentRules

/-- A number as a text of its own. -/
def Number.text : Number → String
  | .int n => toString n
  | .double x _ => Layout.plain.format x

namespace Json

mutual

/-- The canonical text. -/
def text : Json → String
  | .null => "null"
  | .bool true => "true"
  | .bool false => "false"
  | .num n => n.text
  | .str text => text
  | .arr items => ",".intercalate (itemTexts items)
  | .obj fields => (Json.obj fields).render
termination_by structural value => value

/-- The texts of the items of an array. -/
def itemTexts : List Json → List String
  | [] => []
  | .null :: rest => "" :: itemTexts rest
  | item :: rest => item.text :: itemTexts rest
termination_by structural items => items

end

end Json

namespace Value

/-- The canonical text; nothing is written by name. -/
def text : Value → String
  | .undefined => "undefined"
  | .json v => v.text

/-- The value as messages show it. -/
def describe : Value → String
  | .json (.str text) => "\"" ++ text ++ "\""
  | .json (.arr items) => (Json.arr items).render
  | value => value.text

end Value

end DocumentRules
