import DocumentRules.Decimal.Layout

/-!
# Numbers in documents

A document tells integers and doubles apart: `1` and `1.0` are equal as numbers but are different
values with different spellings. `Number` keeps the distinction, and every comparison or arithmetic
operation of the library goes through `toFloat`, where it is lost.

A double in a document is finite, and that is part of the type: there is no spelling for the other
three, so no operation may hand one to a document unnoticed. `ofFloat?` is the only way in, and it
can fail. Integers are not bounded here — the bound of 64 bits is a rule of *reading* a document and
stands with the reader.
-/

set_option autoImplicit false

namespace DocumentRules

/-- An integer or a finite double. -/
inductive Number where
  | int (value : Int)
  | double (value : Float) (finite : value.isFinite = true)

namespace Number

/-- The number as a double; an integer goes to the nearest one. -/
def toFloat : Number → Float
  | .int n => Float.ofInt n
  | .double x _ => x

/-- A double as a number of a document, if it is finite. -/
def ofFloat? (x : Float) : Option Number :=
  if h : x.isFinite = true then some (.double x h) else none

/-- The largest integer below which every integer is a double. -/
def safeInteger : Nat := Nat.pow 2 53 - 1

/-- The result of arithmetic as a number: a whole result within `safeInteger` becomes an integer
(so a negative zero becomes `0`), any other finite result stays a double. -/
def ofResult? (x : Float) : Option Number :=
  match (Binary.ofFloat? x).bind Binary.toInt? with
  | some n => if n.natAbs ≤ safeInteger then some (.int n) else ofFloat? x
  | none => ofFloat? x

/-- The spelling inside a document. -/
def render : Number → String
  | .int n => toString n
  | .double x _ => Layout.document.format x

end Number

end DocumentRules
