/-!
# The exact value of a double

A finite double is the number `± mantissa · 2 ^ exponent`, and everything in this library that has
to be exact about one — its shortest digits, whether it is a whole number, its truncation, the
remainder of a division — is integer arithmetic on those three parts. `Binary` holds them and
`Binary.ofFloat?` reads them off; from then on no rounding takes place, so the definitions below
can be reasoned about without any theory of floating point.

Zero keeps its sign here (mantissa `0`), because the remainder of a division does.
-/

set_option autoImplicit false

namespace DocumentRules

/-- The number `± mantissa · 2 ^ exponent`. -/
structure Binary where
  negative : Bool
  mantissa : Nat
  exponent : Int
deriving Repr, DecidableEq

namespace Binary

/-- The parts of a finite double; none for an infinity or a value that is no number. -/
def ofFloat? (x : Float) : Option Binary :=
  match x.toModel.unpack with
  | .zero sign => some ⟨sign == .negative, 0, 0⟩
  | .finite sign mantissa exponent _ => some ⟨sign == .negative, mantissa, exponent⟩
  | .infinity _ => none
  | .notANumber => none

/-- The value has no fractional part. -/
def isIntegral (b : Binary) : Bool :=
  decide (0 ≤ b.exponent) || b.mantissa % Nat.pow 2 (-b.exponent).toNat == 0

/-- The whole part of the absolute value. -/
def whole (b : Binary) : Nat :=
  if 0 ≤ b.exponent then b.mantissa * Nat.pow 2 b.exponent.toNat
  else b.mantissa / Nat.pow 2 (-b.exponent).toNat

/-- The value with its fractional part cut off, so toward zero. -/
def trunc (b : Binary) : Int :=
  if b.negative then -(b.whole : Int) else (b.whole : Int)

/-- The integer that the value is, if it is one; a negative zero is the integer zero. -/
def toInt? (b : Binary) : Option Int :=
  if b.isIntegral then some b.trunc else none

/-- The remainder of dividing `a` by `b` toward zero: it has the sign of `a`, is smaller than `b`,
and is exact. Both mantissas are brought to the smaller of the two exponents, where the division is
one of natural numbers; the remainder there is below either `a`'s or `b`'s own mantissa, so it fits
a double again. -/
def rem (a b : Binary) : Binary :=
  let exponent := min a.exponent b.exponent
  let dividend := a.mantissa * Nat.pow 2 (a.exponent - exponent).toNat
  let divisor := b.mantissa * Nat.pow 2 (b.exponent - exponent).toNat
  ⟨a.negative, dividend % divisor, exponent⟩

/-- The double `2 ^ exponent`, for exponents from `-1074` to `1023`: below `-1022` the power is one
bit of the mantissa field, from there on it is the exponent field. -/
def powerOfTwo (exponent : Int) : Float :=
  if exponent < -1022 then Float.ofBits (1 <<< (exponent + 1074).toNat).toUInt64
  else Float.ofBits ((exponent + 1023).toNat <<< 52).toUInt64

/-- The double of a value whose mantissa has at most 53 bits and whose exponent is one that doubles
have: the product is exact, so no rounding is chosen here. -/
def toFloat (b : Binary) : Float :=
  let magnitude := Float.ofNat b.mantissa * powerOfTwo b.exponent
  if b.negative then -magnitude else magnitude

end Binary

namespace Double

/-- The double with its fraction cut off, toward zero. A double with an exponent that is not
negative has none, and otherwise the whole part has fewer bits than the mantissa had, so it is a
double as well. The sign stays, also that of a zero. -/
def trunc (x : Float) : Float :=
  match Binary.ofFloat? x with
  | some b =>
    if 0 ≤ b.exponent then x
    else if b.negative then -Float.ofNat b.whole
    else Float.ofNat b.whole
  | none => x

/-- The double moved to the nearer end of a range that it is outside of; none if the ends are in the
wrong order. -/
def clamp? (low high x : Float) : Option Float :=
  if low ≤ high then some (if x < low then low else if high < x then high else x) else none

end Double

end DocumentRules
