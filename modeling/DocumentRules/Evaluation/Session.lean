import DocumentRules.Documents
import DocumentRules.Pointer.Point

/-!
# Sessions

While rules run, two things change: the documents, because rules may write, and the *current*
document, because a path may start with the name of another one. A `Session` is the two together.

A session outlives a failure. The documents keep what was written before it, and so do later runs on
the same documents; `Run` therefore puts the failure inside the state, not around it.

The current document is not part of a point. A point says where in a document something stands, and
the session says in which; `follow` is where the two are brought together. A path that starts with a
slash stays in the current document. One that does not may name a document by its first token, and
then it starts at the root of that document; otherwise it goes on from the point it was given.
-/

set_option autoImplicit false

namespace DocumentRules

/-- The documents, and the name of the one that paths start in. -/
structure Session where
  documents : Documents
  current : String

/-- A step of a run: it may fail, and what was written stays written. -/
abbrev Run := ExceptT Fault (StateM Session)

namespace Run

variable {α : Type}

/-- A computation that does not look at the session, as a step. -/
def ofExcept (result : Except Fault α) : Run α :=
  ExceptT.mk (pure result)

/-- A step that fails. -/
def fail (fault : Fault) : Run α :=
  ofExcept (.error fault)

/-- Runs a step and goes back to the document that was current before it. Only a step that succeeds
comes back; a failure ends the run, and the next run sets the current document itself. -/
def inSameDocument (step : Run α) : Run α := do
  let session ← get
  let result ← step
  modify fun after => { after with current := session.current }
  return result

end Run

namespace Session

/-- A path that may start with the name of a document: that name, and the path behind it. -/
def namedDocument (session : Session) (pointer : String) (path : List String) :
    Option (String × List String) :=
  match pointer.toList, path with
  | '/' :: _, _ => none
  | _, [] => none
  | _, first :: rest =>
    if session.documents.contains first then some (first, rest) else none

/-- The document and the point that a pointer leads to, from the last point of a trail. -/
def follow (session : Session) (pointer : String) (trail : List Point) :
    Except LocationFault (String × Point) := do
  let path ← (Pointer.parse pointer).mapError (.badPath pointer)
  let (document, path, trail) :=
    match session.namedDocument pointer path with
    | some (document, path) => (document, path, [])
    | none => (session.current, path, trail)
  if session.documents.contains document then
    let point ← (Pointer.resolve path trail).mapError (.badPath pointer)
    return (document, point)
  else .error (.unknownDocument document)

/-- The value at a point of a document, as it is now. -/
def read (session : Session) (document : String) (point : Point) : Value :=
  match session.documents.get? document with
  | some doc => .ofOption (point.value? doc)
  | none => .undefined

/-- The session after a write at the place that `pointer` leads to from `point`. Whatever keeps the
place from being written is a domain fault; the current document stays. -/
def write (session : Session) (pointer : String) (point : Point) (value : Json) :
    Except Fault Session := do
  let trail ← point.trail.mapError (Fault.ofPointer pointer)
  let (document, target) ← (session.follow pointer trail).mapError fun fault =>
    .domain (.cannotSet pointer (.place fault))
  match session.documents.get? document with
  | none => .error (.domain (.unknownDocument document))
  | some doc =>
    let (_, doc) ← (doc.set target.keys value).mapError fun error =>
      .domain (.cannotSet pointer (.pointer error))
    return { session with documents := session.documents.put document doc }

end Session

end DocumentRules
