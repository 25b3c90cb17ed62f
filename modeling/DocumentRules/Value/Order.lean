import DocumentRules.Decimal.Numeral
import DocumentRules.Operator
import DocumentRules.Value.Equality
import DocumentRules.Value.Text

/-!
# The order of values

Any two values may be compared, and not every two have an order. Each is first reduced to a
`Primitive`: arrays and objects become their text. Then two texts compare by their characters, and
any other pair compares as numbers, where null and false stand for `0`, true for `1`, a blank text
for `0`, and a text for the number it holds. Where a side has no such number — nothing, or a text
that is no numeral — the pair has no order, and `less?` says so with `none`.

All four comparisons are read off `less?`, with the sides swapped where needed. So "at most" is not
"less or equal": it is "not greater, in a pair that has an order", and an unordered pair fails all
four at once.

The relation is neither total nor transitive, since `"9" < "10"` fails as text and holds for either
against a number. No definition below depends on it being so.
-/

set_option autoImplicit false

namespace DocumentRules

/-- A value reduced to what ordering and `+` look at. -/
inductive Primitive where
  | undefined
  | null
  | bool (value : Bool)
  | number (value : Float)
  | text (text : String)

namespace Primitive

/-- The number that stands for the primitive in a comparison or a sum, if one does. -/
def number? : Primitive → Option Float
  | .undefined => none
  | .null => some 0
  | .bool value => some (if value then 1 else 0)
  | .number value => some value
  | .text s => if Text.allBlank s.toList then some 0 else numericText? s

/-- The text of the primitive when it is joined to another. -/
def toText : Primitive → String
  | .undefined => "undefined"
  | .null => "null"
  | .bool value => if value then "true" else "false"
  | .number value => Layout.plain.format value
  | .text s => s

/-- Whether the primitive is a text. -/
def isText : Primitive → Bool
  | .text _ => true
  | _ => false

end Primitive

namespace Value

/-- The primitive of a value. -/
def primitive : Value → Primitive
  | .undefined => .undefined
  | .json .null => .null
  | .json (.bool b) => .bool b
  | .json (.num n) => .number n.toFloat
  | .json (.str text) => .text text
  | .json (.arr items) => .text (Json.arr items).text
  | .json (.obj fields) => .text (Json.obj fields).text

/-- Whether `a` is less than `b`, if the two have an order. -/
def less? (a b : Value) : Option Bool :=
  match a.primitive, b.primitive with
  | .text s, .text t => some (decide (s < t))
  | p, q =>
    match p.number?, q.number? with
    | some x, some y => some (decide (x < y))
    | _, _ => none

/-- Less. -/
def lt (a b : Value) : Bool :=
  less? a b == some true

/-- Greater. -/
def gt (a b : Value) : Bool :=
  less? b a == some true

/-- In order, and not greater. -/
def lte (a b : Value) : Bool :=
  less? b a == some false

/-- In order, and not less. -/
def gte (a b : Value) : Bool :=
  less? a b == some false

end Value

/-- Whether a comparison holds of two values. -/
def Comparison.holds : Comparison → Value → Value → Bool
  | .eq => Value.strictEq
  | .gt => Value.gt
  | .lt => Value.lt
  | .gte => Value.gte
  | .lte => Value.lte

/-- A negated comparison holds exactly where its comparison fails. -/
def Inversion.holds (operator : Inversion) (a b : Value) : Bool :=
  !operator.positive.holds a b

end DocumentRules
