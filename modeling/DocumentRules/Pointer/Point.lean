import DocumentRules.Pointer.Access

/-!
# Points

A point is a position in a document together with the way it was reached: a root, or a step by some
key from another point. The way is what makes `..` possible, since going up means returning to the
point before, not cutting a token off a text.

A point either reads *live*, from the document as it is at the time of reading, or is *detached* and
carries its value with it. A detached point arises when a rule works on a value that is no longer in
the document, and its children are detached as well: the only steps that look at a value are those
that have one in hand (`child`).

Each point also keeps its pointer text. Points made by the functions below keep the text that
belongs to their keys, but the text is a field of its own, and `trail` is where a chain of points
that repeats a text is refused.
-/

set_option autoImplicit false

namespace DocumentRules

/-- Where a point reads its value: in the document, or from what it carries. -/
inductive Origin where
  | live
  | carried (value : Option Json)

/-- A position together with the way it was reached. -/
inductive Point where
  | root (origin : Origin)
  | step (parent : Point) (key path : String) (origin : Origin)

namespace Point

/-- The root of a document, read live. -/
def documentRoot : Point :=
  .root .live

/-- Where the point reads its value. -/
def origin : Point → Origin
  | .root origin => origin
  | .step _ _ _ origin => origin

/-- The point this one was reached from. -/
def parent? : Point → Option Point
  | .root _ => none
  | .step parent _ _ _ => some parent

/-- The key that led here; empty at a root. -/
def key : Point → String
  | .root _ => ""
  | .step _ key _ _ => key

/-- The pointer text of the point; empty at a root. -/
def path : Point → String
  | .root _ => ""
  | .step _ _ path _ => path

/-- The keys from the root down to the point. -/
def keys : Point → List String
  | .root _ => []
  | .step parent key _ _ => parent.keys ++ [key]

/-- Whether nothing is above the point. -/
def isRoot : Point → Bool
  | .root _ => true
  | .step _ _ _ _ => false

/-- Whether the point carries its value. -/
def isDetached (p : Point) : Bool :=
  match p.origin with
  | .live => false
  | .carried _ => true

/-- A step by `key` to a point with the given origin. -/
def descend (parent : Point) (key : String) (origin : Origin) : Point :=
  .step parent key (parent.path ++ "/" ++ Pointer.escape key) origin

/-- A step by `key`: live from a live point, and from a detached one with the child of its value. -/
def child (parent : Point) (key : String) : Point :=
  match parent.origin with
  | .live => parent.descend key .live
  | .carried value => parent.descend key (.carried (value.bind (Json.step? key)))

/-- A step by `key` to a value that is already in hand. -/
def childCarrying (parent : Point) (key : String) (value : Option Json) : Point :=
  parent.descend key (.carried value)

/-- The same position, carrying `value`. -/
def carrying (value : Option Json) : Point → Point
  | .root _ => .root (.carried value)
  | .step parent key path _ => .step parent key path (.carried value)

/-- The value at the point when `doc` is the document. -/
def value? (p : Point) (doc : Json) : Option Json :=
  match p.origin with
  | .live => doc.get? p.keys
  | .carried value => value

/-! ## The way to a point -/

/-- The point and all those above it, the point first. -/
def lineage : Point → List Point
  | .root origin => [.root origin]
  | .step parent key path origin => .step parent key path origin :: parent.lineage

/-- The first text that has occurred before. -/
def firstRepeat (seen : List String) : List String → Option String
  | [] => none
  | path :: rest => if path ∈ seen then some path else firstRepeat (path :: seen) rest

/-- The way from the root down to the point. Two points of it may not share a pointer text; going
up from the point, the first one to repeat a text is named. -/
def trail (p : Point) : Except PointerError (List Point) :=
  match firstRepeat [] (p.lineage.map path) with
  | some path => .error (.cycle path)
  | none => .ok p.lineage.reverse

end Point

/-! ## Resolving a path -/

namespace Pointer

/-- The token that leads back to the point before. -/
def parentToken : String := ".."

/-- Follows tokens from `current`, with the points above it at hand, nearest first. -/
def walk : List String → List Point → Point → Except PointerError Point
  | [], _, current => .ok current
  | token :: rest, above, current =>
    if token = parentToken then
      match above with
      | [] => .error .aboveRoot
      | point :: above => walk rest above point
    else walk rest (current :: above) (current.child token)

/-- Follows a path from the last point of a trail, or from the root of the document if the trail is
empty. Only positions are computed, so a path may well lead to where nothing is. -/
def resolve (path : List String) (trail : List Point) : Except PointerError Point :=
  match trail.reverse with
  | [] => walk path [] Point.documentRoot
  | last :: above => walk path above last

end Pointer

end DocumentRules
