/-!
# Numbers written as text

Which texts count as numbers? A text counts when, blanks at its ends aside, all of it is one decimal
numeral:

    [sign] (digits [. [digits]] | . digits) [(e|E) [sign] digits]

and the double nearest to it is finite. Digits are ASCII. The grammar is wider than the one of
numbers inside a document (a plus sign, leading zeros, a bare point on either side are all fine) and
names nothing but numerals: no infinity, no hexadecimal, no blank text.

`Numeral.read?` is the grammar, `numericText?` adds the blanks and the finiteness. What the digits
say once the point and the exponent mark have been read is a `Decimal`, which is also what a printer
has in hand before it places them again; reading and printing meet in this type and nowhere else. A
numeral keeps its sign apart from it, because `-0` is a double of its own.

A number may stand between blanks, and a text of blanks alone reads as zero, so the whole library
needs one answer to "is this character blank?". The answer is Unicode's `White_Space` property. It
is wider than `Char.isWhitespace`, which stops at ASCII, and narrower than what an editor shows as
empty: the zero-width space and the byte order mark are *not* in it. The property is given as data
(`Text.blankRanges`), and nothing else names a blank character, except the JSON reader, whose
grammar has its own four.
-/

set_option autoImplicit false

namespace DocumentRules

/-! ## Decimals -/

/-- The number `coefficient · 10 ^ exponent`. -/
structure Decimal where
  coefficient : Nat
  exponent : Int
deriving Repr, DecidableEq

/-- The double nearest to the number; infinite when the number is beyond the doubles. -/
def Decimal.toFloat (d : Decimal) : Float :=
  Float.ofScientific d.coefficient (decide (d.exponent < 0)) d.exponent.natAbs

/-! ## Blank characters -/

namespace Text

/-- The `White_Space` property as inclusive ranges of code points, in ascending order. -/
def blankRanges : List (Nat × Nat) :=
  [(0x09, 0x0d), (0x20, 0x20), (0x85, 0x85), (0xa0, 0xa0), (0x1680, 0x1680), (0x2000, 0x200a),
   (0x2028, 0x2029), (0x202f, 0x202f), (0x205f, 0x205f), (0x3000, 0x3000)]

/-- A character is blank when its code point lies in one of `blankRanges`. -/
def isBlank (c : Char) : Bool :=
  blankRanges.any fun (low, high) => low ≤ c.toNat && c.toNat ≤ high

/-- The text without the blanks at its two ends; blanks inside stay. -/
def trim (cs : List Char) : List Char :=
  ((cs.dropWhile isBlank).reverse.dropWhile isBlank).reverse

/-- A text of blanks alone, the empty one included. -/
def allBlank (cs : List Char) : Bool :=
  cs.all isBlank

end Text

/-! ## Numerals -/

/-- A decimal with a sign. -/
structure Numeral where
  negative : Bool
  magnitude : Decimal
deriving Repr, DecidableEq

namespace Numeral

/-- The double nearest to the numeral. -/
def toFloat (n : Numeral) : Float :=
  if n.negative then -n.magnitude.toFloat else n.magnitude.toFloat

/-- The digits at the front. -/
def digits (cs : List Char) : List Char :=
  cs.takeWhile Char.isDigit

/-- What follows the digits at the front. -/
def afterDigits (cs : List Char) : List Char :=
  cs.dropWhile Char.isDigit

/-- The number that a run of digits spells. -/
def value (digits : List Char) : Nat :=
  Nat.ofDigitChars 10 digits 0

/-- Takes an optional sign off the front; true for a minus. -/
def takeSign : List Char → Bool × List Char
  | '-' :: rest => (true, rest)
  | '+' :: rest => (false, rest)
  | cs => (false, cs)

/-- The exponent part, which must be all that is left; it may be missing. -/
def exponent? : List Char → Option Int
  | [] => some 0
  | mark :: rest =>
    let (negative, body) := takeSign rest
    if (mark = 'e' ∨ mark = 'E') ∧ digits body ≠ [] ∧ afterDigits body = [] then
      some (if negative then -(value body : Int) else (value body : Int))
    else none

/-- Takes a point and the digits behind it off the front; without a point there are none. -/
def takeFraction : List Char → List Char × List Char
  | '.' :: rest => (digits rest, afterDigits rest)
  | cs => ([], cs)

/-- Reads a whole text as one numeral. The digits on both sides of the point make up the
coefficient; those behind it shift the exponent. -/
def read? (cs : List Char) : Option Numeral :=
  let (negative, body) := takeSign cs
  let whole := digits body
  let (fraction, tail) := takeFraction (afterDigits body)
  if whole = [] ∧ fraction = [] then none
  else
    (exponent? tail).map fun exponent =>
      ⟨negative, ⟨value (whole ++ fraction), exponent - fraction.length⟩⟩

end Numeral

/-- The double that a text names as a number: a numeral between blanks, and finite. -/
def numericText? (text : String) : Option Float :=
  ((Numeral.read? (Text.trim text.toList)).map Numeral.toFloat).filter Float.isFinite

end DocumentRules
