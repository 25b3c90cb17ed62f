/-!
# Pointers as text, paths as tokens

A pointer is text: tokens, each behind a `/`, with `~1` for a `/` inside a token and `~0` for a
`~`. A path is the list of those tokens in the clear. `parse` goes from text to path and `format`
goes back. They are inverse up to the one convention that makes both the empty text and a lone `/`
address the starting point.

The first `/` may be left out of a pointer. Nothing about `..` is decided here: it is a token like
any other until a path is resolved.

Both replacements of `unescape` run over the whole component, `~1` first. In that order neither can
make a new pair for the other out of what it leaves, which is why one pass from left to right gives
the same text.

A pointer fails for one of eight reasons: three about its text, one about climbing too far, three
about the place a write is aimed at, and one about a chain of points that comes back to itself. The
reasons are the constructors of `PointerError`; the wording is `PointerError.message` and stands
nowhere else. The three write reasons carry the pointer text of the place they are about, which is
the parent for `notFound` and `notContainer` and the whole path for `invalidIndex`.
-/

set_option autoImplicit false

namespace DocumentRules

/-- A reason why a pointer is refused, cannot be followed or cannot be written through. -/
inductive PointerError where
  | invalidEscape (pointer : String)
  | pointerTooLong
  | pathTooLong
  | aboveRoot
  | notFound (parent : String)
  | invalidIndex (path : String)
  | notContainer (parent : String)
  | cycle (path : String)
deriving Repr, DecidableEq

namespace PointerError

/-- The wording of a reason. -/
def message : PointerError → String
  | .invalidEscape pointer => "POINTER_INVALID: bad escape sequence in \"" ++ pointer ++ "\""
  | .pointerTooLong => "POINTER_TOO_LONG"
  | .pathTooLong => "Path too long"
  | .aboveRoot => "Cannot navigate above the document root"
  | .notFound parent => "NOT_FOUND: " ++ parent
  | .invalidIndex path => "INVALID_INDEX: " ++ path
  | .notContainer parent => "NOT_CONTAINER: " ++ parent
  | .cycle path => "infinite loop detected at \"" ++ path ++ "\""

end PointerError

namespace Pointer

/-! ## Components -/

/-- Replaces every `~` that stands before `digit`, together with that digit, by `replacement`. -/
def replacePair (digit replacement : Char) : List Char → List Char
  | [] => []
  | [c] => [c]
  | c :: d :: rest =>
    if c = '~' ∧ d = digit then replacement :: replacePair digit replacement rest
    else c :: replacePair digit replacement (d :: rest)

/-- The token that a component of a pointer spells. A `~` before anything else stays. -/
def unescapeChars (cs : List Char) : List Char :=
  replacePair '0' '~' (replacePair '1' '/' cs)

/-- One character of a token as it is written in a pointer. -/
def escapeChar (c : Char) : List Char :=
  if c = '~' then ['~', '0'] else if c = '/' then ['~', '1'] else [c]

/-- A token as it is written in a pointer. -/
def escapeChars (cs : List Char) : List Char :=
  cs.flatMap escapeChar

/-- `unescapeChars` on strings. -/
def unescape (component : String) : String :=
  String.ofList (unescapeChars component.toList)

/-- `escapeChars` on strings. -/
def escape (token : String) : String :=
  String.ofList (escapeChars token.toList)

/-! ## What is accepted -/

/-- The greatest size of a pointer, in bytes of UTF-8. -/
def maxPointerSize : Nat := 1024

/-- The greatest number of tokens of a path. -/
def maxPathLength : Nat := 256

/-- Every `~` stands before a `0` or a `1`. -/
def escapesValid : List Char → Bool
  | [] => true
  | '~' :: '0' :: rest => escapesValid rest
  | '~' :: '1' :: rest => escapesValid rest
  | c :: rest => c != '~' && escapesValid rest

/-- A pointer is refused for its size first and for a bad escape second. -/
def validate (pointer : String) : Except PointerError Unit :=
  if maxPointerSize < pointer.utf8ByteSize then .error .pointerTooLong
  else if escapesValid pointer.toList then .ok ()
  else .error (.invalidEscape pointer)

/-- A path is refused for its length alone. -/
def validatePath (path : List String) : Except PointerError Unit :=
  if maxPathLength < path.length then .error .pathTooLong else .ok ()

/-! ## Text to path and back -/

/-- The text behind an optional first slash. -/
def body : List Char → List Char
  | '/' :: rest => rest
  | cs => cs

/-- The tokens of a pointer's text; none when nothing follows the optional first slash. -/
def tokens (cs : List Char) : List String :=
  match body cs with
  | [] => []
  | c :: rest => ((c :: rest).splitOn '/').map fun part => String.ofList (unescapeChars part)

/-- The path of a pointer. -/
def parse (pointer : String) : Except PointerError (List String) := do
  validate pointer
  let path := tokens pointer.toList
  validatePath path
  return path

/-- The pointer of a path, with its first slash; the pointer of the starting point is empty. -/
def format (path : List String) : String :=
  String.join (path.map fun token => "/" ++ escape token)

/-! ## Array indices -/

/-- The position that a token names in an array: the decimal text of a natural number, so digits
only and no zero in front of another digit. -/
def index? (token : String) : Option Nat :=
  match token.toList with
  | [] => none
  | ['0'] => some 0
  | '0' :: _ => none
  | cs => if cs.all Char.isDigit then some (Nat.ofDigitChars 10 cs 0) else none

/-- Whether a token can name a position in some array. -/
def isIndex (token : String) : Bool :=
  (index? token).isSome

end Pointer

end DocumentRules
