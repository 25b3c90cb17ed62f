import DocumentRules.Pointer.Access

/-!
# Editing a document that is held

`Json.set` hands back a new document and says nothing of the old one. Whoever holds a document and
changes it has a document afterwards in any case, also if the change is refused. `Json.edit` is the
write from that side: it answers what the write answers, and the document that is held from then on.

An edit goes to the parent of the place first and changes the parent, and every container on the way
takes its changed child back. That is a second walk beside that of `Json.set?`, with the looking up
and the changing apart.
-/

set_option autoImplicit false

namespace DocumentRules.Json

/-- Changes the value at a path by a step that also answers something. Nothing comes of it if there
is no value at the path. -/
def changeAt {α : Type} (change : Json → α × Json) : List String → Json → Option (α × Json)
  | [], doc => some (change doc)
  | token :: rest, doc =>
    match doc.step? token with
    | none => none
    | some child =>
      match changeAt change rest child with
      | none => none
      | some (answer, child) => some (answer, doc.replaceChild token child)

/-- A write under one token as a change of the parent. A parent that refuses it stays as it is. -/
def editChild (token : String) (value parent : Json) : Except WriteFault (Option Json) × Json :=
  match parent.setChild token value with
  | .ok (old, parent) => (.ok old, parent)
  | .error fault => (.error fault, parent)

/-- Writes `value` at `path` in a document that is held. Answers what the write answers, and the
document that is held afterwards. -/
def edit (doc : Json) (path : List String) (value : Json) :
    Except PointerError (Option Json) × Json :=
  match path.getLast? with
  | none => (.ok (some doc), value)
  | some token =>
    match changeAt (editChild token value) path.dropLast doc with
    | none => (.error (WriteFault.toPointerError path .noParent), doc)
    | some (result, doc) => (result.mapError (WriteFault.toPointerError path), doc)

end DocumentRules.Json
