import DocumentRules.Condition.Basic
import DocumentRules.Fault
import DocumentRules.Value.Order

/-!
# Deciding conditions

A condition is decided from left to right: the first check whose truth decides the connective ends
it, and a check that fails ends everything. Only one thing can fail, a search in something that is
no array.

Conditions address their data by dotted paths, which are simpler than pointers: field names between
dots, no escapes, no array positions, no way up. Every text is a dotted path, the empty one too,
which names the field with the empty name.

All checks of one condition look at the same data, and paths recur, so what a path led to is kept
while the scope lasts (`Known`). Negations and nested conditions share the scope of the check they
stand in; every element of a searched array is a scope of its own, since there the same path leads
elsewhere. What is known can only speed up the next look-up of the same path, never change it.

With casting, a comparison is made between the texts of the two sides, so any two values have an
order.
-/

set_option autoImplicit false

namespace DocumentRules

/-! ## Dotted paths -/

namespace Json

/-- The value behind a list of field names; nothing as soon as something else
than an object is met. -/
def fieldAt? : List String → Json → Option Json
  | [], doc => some doc
  | key :: rest, doc =>
    match doc.field? key with
    | some child => child.fieldAt? rest
    | none => none

/-- The field names of a dotted path. -/
def dottedParts (path : String) : List String :=
  (path.toList.splitOn '.').map String.ofList

/-- The value at a dotted path. -/
def dotted (path : String) (data : Json) : Value :=
  .ofOption (data.fieldAt? (dottedParts path))

end Json

/-! ## Deciding -/

/-- The values that paths led to so far, in one scope. -/
abbrev Known := List (String × Value)

/-- A decision within a scope. -/
abbrev Scoped := StateT Known (Except Fault)

/-- The value at a dotted path of the scope's data, remembered for the next time. -/
def lookUp (data : Json) (path : String) : Scoped Value := fun known =>
  match known.lookup path with
  | some value => .ok (value, known)
  | none =>
    let value := data.dotted path
    .ok (value, (path, value) :: known)

/-- Whether a comparison holds, with both sides cast to their texts if wanted. -/
def Comparison.holdsCast (operator : Comparison) (cast : Bool) (actual expected : Value) : Bool :=
  if cast then operator.holds (.ofText actual.text) (.ofText expected.text)
  else operator.holds actual expected

/-- Whether some item passes, asking them in order until one does. -/
def anyItem (passes : Json → Except Fault Bool) : List Json → Except Fault Bool
  | [] => .ok false
  | item :: rest => do
    if ← passes item then return true else anyItem passes rest

/-- The items of the array that a search looks through. -/
def searchedItems (path : String) (value : Value) : Except Fault (List Json) :=
  match value.items? with
  | some items => .ok items
  | none => .error (.searchTarget path)

mutual

/-- Decides a condition within a scope. -/
def Condition.decideIn (cast : Bool) (condition : Condition) (data : Json) : Scoped Bool :=
  match condition with
  | .mk operator checks => Check.decideAllIn cast checks operator data
termination_by structural condition

/-- Decides a check within a scope. -/
def Check.decideIn (cast : Bool) (check : Check) (data : Json) : Scoped Bool :=
  match check with
  | .nested condition => condition.decideIn cast data
  | .compare path operator expected => do
    let actual ← lookUp data path
    return operator.holdsCast cast actual expected
  | .contains path condition => do
    let target ← lookUp data path
    let items ← searchedItems path target
    anyItem (fun item => Prod.fst <$> (condition.decideIn cast item).run []) items
  | .not target => do
    return !(← target.decideIn cast data)
termination_by structural check

/-- Decides checks joined by a connective, up to the first that decides the whole. -/
def Check.decideAllIn (cast : Bool) (checks : List Check) (operator : Connective) (data : Json) :
    Scoped Bool :=
  match checks with
  | [] => return !operator.deciding
  | check :: rest => do
    let passed ← check.decideIn cast data
    if passed == operator.deciding then return passed
    else Check.decideAllIn cast rest operator data
termination_by structural checks

end

/-- Decides a condition about `data`, starting with nothing known. -/
def Condition.decide (cast : Bool) (condition : Condition) (data : Json) : Except Fault Bool :=
  Prod.fst <$> (condition.decideIn cast data).run []

end DocumentRules
