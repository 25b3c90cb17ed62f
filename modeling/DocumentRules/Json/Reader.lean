import DocumentRules.Decimal.Numeral
import DocumentRules.Json.Basic

/-!
# Reading documents

The reader takes exactly the JSON grammar and refuses everything around it: leading zeros, a sign
other than a minus, a point without digits on both sides, trailing commas, raw control characters,
half of a surrogate pair, text after the value, and white space other than the four characters of
the grammar. Two of its rules are limits rather than grammar. An integer literal that needs more
than 64 bits is read as a double, and a double beyond the finite ones is refused. And a value may
not nest more than `maxDepth` containers.

The depth limit is also why the reader ends. `value` recurses on the depth that is left, so a
container at depth zero is refused by the shape of the definition, and the loop over the items of
one container only needs a bound on their number — the number of characters left will do.
-/

set_option autoImplicit false

namespace DocumentRules.Json.Reader

/-- A reader takes something off the front of a text and gives what is left, or refuses. -/
abbrev Reads (α : Type) := List Char → Option (α × List Char)

/-- How many containers may stand inside one another. -/
def maxDepth : Nat := 127

/-- The white space of the grammar. -/
def isSpace (c : Char) : Bool :=
  c == ' ' || c == '\t' || c == '\n' || c == '\r'

/-- The text without the white space at its front. -/
def skipSpace (cs : List Char) : List Char :=
  cs.dropWhile isSpace

/-! ## Strings -/

/-- The value of a hexadecimal digit of either case. -/
def hexDigit? (c : Char) : Option Nat :=
  if '0' ≤ c ∧ c ≤ '9' then some (c.toNat - '0'.toNat)
  else if 'a' ≤ c ∧ c ≤ 'f' then some (c.toNat - 'a'.toNat + 10)
  else if 'A' ≤ c ∧ c ≤ 'F' then some (c.toNat - 'A'.toNat + 10)
  else none

/-- The number that four hexadecimal digits spell. -/
def hex4? (a b c d : Char) : Option Nat := do
  return (((← hexDigit? a) * 16 + (← hexDigit? b)) * 16 + (← hexDigit? c)) * 16 + (← hexDigit? d)

/-- The character of a one-letter escape. -/
def simpleEscape? : Char → Option Char
  | '"' => some '"'
  | '\\' => some '\\'
  | '/' => some '/'
  | 'b' => some '\x08'
  | 'f' => some '\x0c'
  | 'n' => some '\n'
  | 'r' => some '\r'
  | 't' => some '\t'
  | _ => none

/-- A code unit that must be followed by the second half of a pair. -/
def isHighSurrogate (unit : Nat) : Bool :=
  decide (0xd800 ≤ unit) && decide (unit < 0xdc00)

/-- A code unit that must follow the first half of a pair. -/
def isLowSurrogate (unit : Nat) : Bool :=
  decide (0xdc00 ≤ unit) && decide (unit < 0xe000)

/-- The character of a pair. -/
def paired (high low : Nat) : Char :=
  Char.ofNat (0x10000 + (high - 0xd800) * 0x400 + (low - 0xdc00))

/-- Puts a character in front of what a reader of characters took. -/
def consChar (c : Char) (taken : Option (List Char × List Char)) : Option (List Char × List Char) :=
  taken.map fun (cs, rest) => (c :: cs, rest)

/-- The rest of a string, from behind its opening quote to behind its closing one. -/
def stringBody : Reads (List Char)
  | [] => none
  | '"' :: rest => some ([], rest)
  | '\\' :: 'u' :: a :: b :: c :: d :: rest =>
    match hex4? a b c d with
    | none => none
    | some unit =>
      if isLowSurrogate unit then none
      else if isHighSurrogate unit then
        match rest with
        | '\\' :: 'u' :: e :: f :: g :: h :: rest =>
          match hex4? e f g h with
          | none => none
          | some low =>
            if isLowSurrogate low then consChar (paired unit low) (stringBody rest) else none
        | _ => none
      else consChar (Char.ofNat unit) (stringBody rest)
  | '\\' :: c :: rest =>
    match simpleEscape? c with
    | none => none
    | some c => consChar c (stringBody rest)
  | c :: rest => if c.toNat < 0x20 then none else consChar c (stringBody rest)

/-- A string with its opening quote. -/
def string : Reads String
  | '"' :: rest => (stringBody rest).map fun (cs, rest) => (String.ofList cs, rest)
  | _ => none

/-! ## Numbers -/

/-- The digits of the whole part: at least one, and no zero in front of another digit. -/
def wholePart (cs : List Char) : Option (List Char × List Char) :=
  match Numeral.digits cs with
  | [] => none
  | ['0'] => some (['0'], Numeral.afterDigits cs)
  | '0' :: _ => none
  | digits => some (digits, Numeral.afterDigits cs)

/-- The digits behind a point, of which there is at least one; none without a point. -/
def fractionPart : Reads (Option (List Char))
  | '.' :: rest =>
    match Numeral.digits rest with
    | [] => none
    | digits => some (some digits, Numeral.afterDigits rest)
  | cs => some (none, cs)

/-- The exponent behind its mark, with at least one digit; none without a mark. -/
def exponentPart : Reads (Option Int)
  | [] => some (none, [])
  | mark :: rest =>
    if mark = 'e' ∨ mark = 'E' then
      let (negative, body) := Numeral.takeSign rest
      match Numeral.digits body with
      | [] => none
      | digits =>
        let size : Int := Numeral.value digits
        some (some (if negative then -size else size), Numeral.afterDigits body)
    else some (none, mark :: rest)

/-- The integers that fit 64 bits, signed or unsigned. -/
def fitsInteger (n : Int) : Bool :=
  decide (-(Nat.pow 2 63 : Int) ≤ n) && decide (n < (Nat.pow 2 64 : Int))

/-- The number of a literal. Only a literal without point and exponent is an integer, if it fits
one; `-0` is not, since no integer has that sign. -/
def numberOf? (negative : Bool) (whole : List Char) (fraction : Option (List Char))
    (exponent : Option Int) : Option Number :=
  let numeral : Numeral :=
    ⟨negative, ⟨Numeral.value (whole ++ fraction.getD []),
      exponent.getD 0 - (fraction.getD []).length⟩⟩
  match fraction, exponent with
  | none, none =>
    let size : Int := Numeral.value whole
    let n := if negative then -size else size
    if fitsInteger n && !(negative && n == 0) then some (.int n)
    else Number.ofFloat? numeral.toFloat
  | _, _ => Number.ofFloat? numeral.toFloat

/-- A number literal. -/
def number (cs : List Char) : Option (Number × List Char) := do
  let (negative, body) := match cs with
    | '-' :: rest => (true, rest)
    | cs => (false, cs)
  let (whole, rest) ← wholePart body
  let (fraction, rest) ← fractionPart rest
  let (exponent, rest) ← exponentPart rest
  let n ← numberOf? negative whole fraction exponent
  return (n, rest)

/-! ## Values -/

/-- A value that holds no other value. -/
def scalar : Reads Json
  | 'n' :: 'u' :: 'l' :: 'l' :: rest => some (.null, rest)
  | 't' :: 'r' :: 'u' :: 'e' :: rest => some (.bool true, rest)
  | 'f' :: 'a' :: 'l' :: 's' :: 'e' :: rest => some (.bool false, rest)
  | '"' :: rest => (string ('"' :: rest)).map fun (text, rest) => (.str text, rest)
  | cs => (number cs).map fun (n, rest) => (.num n, rest)

variable {α : Type}

/-- One member of a container and those after it, up to and with the closing character. -/
def members (member : Reads α) (close : Char) : Nat → Reads (List α)
  | 0, _ => none
  | bound + 1, cs => do
    let (first, rest) ← member cs
    match skipSpace rest with
    | ',' :: rest =>
      let (others, rest) ← members member close bound rest
      return (first :: others, rest)
    | c :: rest => if c = close then return ([first], rest) else none
    | [] => none

/-- The inside of a container, from behind its opening character; it may be empty. -/
def container (member : Reads α) (close : Char) (cs : List Char) : Option (List α × List Char) :=
  match skipSpace cs with
  | [] => none
  | c :: rest => if c = close then some ([], rest) else members member close cs.length (c :: rest)

/-- One field of an object: a string, a colon and a value. -/
def field (value : Reads Json) (cs : List Char) : Option ((String × Json) × List Char) := do
  let (key, rest) ← string (skipSpace cs)
  match skipSpace rest with
  | ':' :: rest =>
    let (item, rest) ← value rest
    return ((key, item), rest)
  | _ => none

/-- A value in which at most `depth` containers stand inside one another. -/
def value : Nat → Reads Json
  | 0 => fun cs => scalar (skipSpace cs)
  | depth + 1 => fun cs =>
    match skipSpace cs with
    | '[' :: rest =>
      (container (value depth) ']' rest).map fun (items, rest) => (.arr items, rest)
    | '\x7b' :: rest =>
      (container (field (value depth)) '\x7d' rest).map fun (fields, rest) =>
        (.obj (Table.ofEntries fields), rest)
    | cs => scalar cs

end Reader

/-- Reads a text that is one value with white space around it. -/
def read? (text : String) : Option Json :=
  match Reader.value Reader.maxDepth text.toList with
  | some (value, rest) => if Reader.skipSpace rest = [] then some value else none
  | none => none

end DocumentRules.Json
