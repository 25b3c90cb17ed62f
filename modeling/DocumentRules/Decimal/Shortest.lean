import DocumentRules.Decimal.Numeral

/-!
# The shortest decimal of a double

Of all decimals that read back as a given double, which one is printed? The one with the fewest
digits, and of those the nearest to the double. The definition follows that sentence.

The decimals that read back fill the *rounding interval* of the double: from halfway to its lower
neighbour to halfway to its upper one, ends included when the mantissa is even, because a tie in
reading goes to the even mantissa. Fewer digits means a coarser grid `10 ^ k`, so the search walks
the grids from coarse to fine and takes the first with a point inside the interval. If a grid has
any point inside, then one of the two neighbours of the value on that grid is inside, so only those
two are tried (`candidate`).

The walk cannot come out empty. It ends at a grid that holds the value itself (`exact`), which is
therefore the base case of the recursion rather than a failure: `shortest` is total and needs no
excuse for a last line that never runs.
-/

set_option autoImplicit false

namespace DocumentRules.Decimal

/-- Which of two equally near shortest decimals is taken: the greater, or the one whose last digit
is even. -/
inductive Tie where
  | up
  | even
deriving Repr, DecidableEq

/-- The number `mantissa · 2 ^ exponent` as a decimal, with every digit: a negative power of two is
a power of five on the grid of the same power of ten. -/
def exact (mantissa : Nat) (exponent : Int) : Decimal :=
  if 0 ≤ exponent then ⟨mantissa * Nat.pow 2 exponent.toNat, 0⟩
  else ⟨mantissa * Nat.pow 5 (-exponent).toNat, exponent⟩

/-- The exponent of the finest grid that is ever needed, the one that holds the value itself. -/
def finest (exponent : Int) : Int :=
  min exponent 0

/-- The exponent of a grid coarser than the whole value: `30103 / 100000` is just above the
logarithm of two. -/
def coarsest (mantissa : Nat) (exponent : Int) : Int :=
  (exponent + Nat.log2 mantissa + 1) * 30103 / 100000 + 1

/-- The least mantissa of a double above the smallest binade. There the lower neighbour is only half
as far away as the upper one. -/
def binadeStart : Nat := Nat.pow 2 52

/-- The exponent of the smallest binade, below which the spacing does not shrink any further. -/
def leastExponent : Int := -1074

/-- The point of the grid `10 ^ k` inside the rounding interval of `mantissa · 2 ^ exponent`, the
nearer one if both neighbours of the value are inside. The value and the ends of the interval are
multiples of `2 ^ (exponent - 2)`; scaled by `10 ^ k` they are compared as natural numbers. -/
def candidate (tie : Tie) (mantissa : Nat) (exponent k : Int) : Option Nat :=
  let scale := Nat.pow 2 (exponent - 2).toNat * Nat.pow 10 (-k).toNat
  let unit := Nat.pow 2 (2 - exponent).toNat * Nat.pow 10 k.toNat
  let value := 4 * mantissa * scale
  let low :=
    if mantissa = binadeStart ∧ leastExponent < exponent then (4 * mantissa - 1) * scale
    else (4 * mantissa - 2) * scale
  let high := (4 * mantissa + 2) * scale
  let inside (point : Nat) : Bool :=
    if mantissa % 2 = 0 then low ≤ point * unit && point * unit ≤ high
    else low < point * unit && point * unit < high
  let below := value / unit
  let above := below + 1
  match inside below, inside above with
  | true, true =>
    match compare (2 * value) ((below + above) * unit), tie with
    | .lt, _ => some below
    | .gt, _ => some above
    | .eq, .up => some above
    | .eq, .even => some (if below % 2 = 0 then below else above)
  | true, false => some below
  | false, true => some above
  | false, false => none

/-- Walks the grids from `finest exponent + steps` downward and takes the first candidate. -/
def search (tie : Tie) (mantissa : Nat) (exponent : Int) : Nat → Decimal
  | 0 => exact mantissa exponent
  | steps + 1 =>
    let k := finest exponent + (steps + 1 : Nat)
    match candidate tie mantissa exponent k with
    | some coefficient => ⟨coefficient, k⟩
    | none => search tie mantissa exponent steps

/-- The decimal with the fewest digits, and nearest among those, that reads back as the double
`mantissa · 2 ^ exponent`; zero is the digit zero. -/
def shortest (tie : Tie) (mantissa : Nat) (exponent : Int) : Decimal :=
  if mantissa = 0 then ⟨0, 0⟩
  else
    search tie mantissa exponent (coarsest mantissa exponent - finest exponent).toNat

end DocumentRules.Decimal
