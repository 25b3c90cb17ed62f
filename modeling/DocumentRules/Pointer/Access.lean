import DocumentRules.Json.Basic
import DocumentRules.Pointer.Path

/-!
# Reading and writing at a path

A path is followed one token at a time. A token is a key in an object and a position in an array,
and leads nowhere from anything else. `get?` is that walk.

`set?` recurses on the path too, all the way to the last token, and rebuilds the containers on the
way back. Finding the parent first and changing it in place would be two walks whose agreement has
to be proved; one walk that reads and rebuilds makes each law of a written document one induction.
The walk itself only knows which of three faults it met (`Fault`), because the wording of a fault
needs the path from the root; `set` adds that.

A write at the end of an array, or at the token `-`, appends to it.
-/

set_option autoImplicit false

namespace DocumentRules.Json

/-- The child that one token leads to. -/
def step? (token : String) : Json → Option Json
  | .obj fields => fields.lookup token
  | .arr items =>
    match Pointer.index? token with
    | some i => items[i]?
    | none => none
  | _ => none

/-- The value at a path. -/
def get? : List String → Json → Option Json
  | [], doc => some doc
  | token :: rest, doc =>
    match doc.step? token with
    | some child => child.get? rest
    | none => none

/-- The container with another child in place of one that it has. -/
def replaceChild (doc : Json) (token : String) (child : Json) : Json :=
  match doc with
  | .obj fields => .obj (Table.replace token child fields)
  | .arr items =>
    match Pointer.index? token with
    | some i => .arr (items.set i child)
    | none => .arr items
  | other => other

/-- Why a write fails: no parent, a parent that holds nothing, or no such position in it. -/
inductive WriteFault where
  | noParent
  | noContainer
  | noPosition
deriving Repr, DecidableEq

/-- Writes under one token of a parent. Answers what stood there before, and the new parent. -/
def setChild (parent : Json) (token : String) (value : Json) :
    Except WriteFault (Option Json × Json) :=
  match parent with
  | .obj fields => .ok (fields.lookup token, .obj (Table.put token value fields))
  | .arr items =>
    if token = "-" then .ok (none, .arr (items ++ [value]))
    else
      match Pointer.index? token with
      | none => .error .noPosition
      | some i =>
        if i < items.length then .ok (items[i]?, .arr (items.set i value))
        else if i = items.length then .ok (none, .arr (items ++ [value]))
        else .error .noPosition
  | _ => .error .noContainer

/-- Writes at a path. Answers what stood there before, and the new document. -/
def set? (doc : Json) (path : List String) (value : Json) :
    Except WriteFault (Option Json × Json) :=
  match path with
  | [] => .ok (some doc, value)
  | [token] => doc.setChild token value
  | token :: next :: rest =>
    match doc.step? token with
    | none => .error .noParent
    | some child =>
      match child.set? (next :: rest) value with
      | .error fault => .error fault
      | .ok (old, child) => .ok (old, doc.replaceChild token child)

/-- A fault of a write at `path`, with the pointer of the place it is about. -/
def WriteFault.toPointerError (path : List String) : WriteFault → PointerError
  | .noParent => .notFound (Pointer.format path.dropLast)
  | .noContainer => .notContainer (Pointer.format path.dropLast)
  | .noPosition => .invalidIndex (Pointer.format path)

/-- Writes `value` at `path`. The parent must exist and must be a container; an object gains or
changes the field, an array changes a position it has or grows by one. -/
def set (doc : Json) (path : List String) (value : Json) :
    Except PointerError (Option Json × Json) :=
  (doc.set? path value).mapError (WriteFault.toPointerError path)

end DocumentRules.Json
