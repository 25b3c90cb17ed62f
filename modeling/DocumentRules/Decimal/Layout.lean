import DocumentRules.Decimal.Binary
import DocumentRules.Decimal.Shortest

/-!
# How a double is written

`Decimal.shortest` fixes the digits; a `Layout` says how they are laid out. The library writes
doubles in two forms — `Layout.document`, inside a printed document, and `Layout.plain`, for a
number that stands alone as text — and the two differ only in the six decisions of the record. The
record is the whole difference: there is one `render`, so whatever is proved of it holds of both.

A number is positional while its leading digit lies in a band of places, and is written with an
exponent outside that band. The exponent always carries its sign.
-/

set_option autoImplicit false

namespace DocumentRules

/-- The decisions of a form of writing doubles. -/
structure Layout where
  /-- The least place of the leading digit (`0` for units) that is still written positionally. -/
  positionalFrom : Int
  /-- The first place of the leading digit that no longer is. -/
  positionalBelow : Int
  /-- A whole number in positional form ends in `.0`. -/
  pointed : Bool
  /-- Negative zero shows its sign. -/
  signedZero : Bool
  /-- Between two equally near shortest decimals. -/
  tie : Decimal.Tie
deriving Repr, DecidableEq

namespace Layout

/-- Doubles inside a document: positional from `0.00001` to below `10 ^ 16`, always recognisable as
a double by a point or an exponent, and negative zero told apart from zero. -/
def document : Layout where
  positionalFrom := -5
  positionalBelow := 16
  pointed := true
  signedZero := true
  tie := .even

/-- A number standing alone as text: positional from `0.000001` to below `10 ^ 21`, with no mark
that it is a double, and without a negative zero. -/
def plain : Layout where
  positionalFrom := -6
  positionalBelow := 21
  pointed := false
  signedZero := false
  tie := .up

/-- Digits with the point in its place and the places between filled with zeros. -/
def positional (layout : Layout) (digits : List Char) (exponent lead : Int) : List Char :=
  if 0 ≤ exponent then
    digits ++ List.replicate exponent.toNat '0' ++ (if layout.pointed then ['.', '0'] else [])
  else if 0 ≤ lead then
    digits.take (lead + 1).toNat ++ '.' :: digits.drop (lead + 1).toNat
  else
    '0' :: '.' :: List.replicate (-lead - 1).toNat '0' ++ digits

/-- One digit before the point, the rest behind it, and the place of the first digit as a signed
exponent. -/
def scientific (digits : List Char) (lead : Int) : List Char :=
  let fraction := match digits.drop 1 with
    | [] => []
    | rest => '.' :: rest
  digits.take 1 ++ fraction ++
    'e' :: (if lead < 0 then '-' else '+') :: Nat.toDigits 10 lead.natAbs

/-- The text of a decimal without its sign. -/
def magnitude (layout : Layout) (d : Decimal) : List Char :=
  let digits := Nat.toDigits 10 d.coefficient
  let lead := d.exponent + digits.length - 1
  if layout.positionalFrom ≤ lead ∧ lead < layout.positionalBelow then
    layout.positional digits d.exponent lead
  else scientific digits lead

/-- The text of a finite double given by its parts. -/
def render (layout : Layout) (b : Binary) : List Char :=
  let text := layout.magnitude (Decimal.shortest layout.tie b.mantissa b.exponent)
  if b.negative && (layout.signedZero || b.mantissa != 0) then '-' :: text else text

/-- The text of any double; the three that are no finite number go by name. -/
def format (layout : Layout) (x : Float) : String :=
  match Binary.ofFloat? x with
  | some b => String.ofList (layout.render b)
  | none => if x.isNaN then "NaN" else if 0 < x then "Infinity" else "-Infinity"

end Layout

end DocumentRules
