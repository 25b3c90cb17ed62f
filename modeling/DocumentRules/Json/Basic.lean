import DocumentRules.Json.Number
import DocumentRules.Table

/-!
# Documents

A document is a JSON value. Objects are tables in the sense of `DocumentRules.Table`: association
lists in the order of their keys, without a second entry under one key. The type cannot carry that
order, since a value holds others of its own type. The reader gives it and every write keeps it, and
no law of reading or writing needs it.
-/

set_option autoImplicit false

namespace DocumentRules

/-- A JSON value. -/
inductive Json where
  | null
  | bool (value : Bool)
  | num (value : Number)
  | str (text : String)
  | arr (items : List Json)
  | obj (fields : List (String × Json))

namespace Json

/-- The result of arithmetic as a value; a result that is not finite has no number and is null. -/
def ofFloat (x : Float) : Json :=
  match Number.ofResult? x with
  | some n => .num n
  | none => .null

/-- An integer as a value. -/
def ofInt (n : Int) : Json :=
  .num (.int n)

/-- The field `key` of an object; nothing else has fields. -/
def field? (key : String) : Json → Option Json
  | .obj fields => fields.lookup key
  | _ => none

end Json

end DocumentRules
