import DocumentRules.Condition.Basic
import DocumentRules.Fault

/-!
# Conditions from documents

A check is spelled as an object with an operator, and the kind of the operator decides the rest.
Checks know fewer operators than rules do: the connectives, the comparisons, `contains`, and of the
negated comparisons only `not`, which here negates a whole check. Any other operator, known to rules
or not, is refused as an operator for checks.

As in the parser of rules, a nested check or list of checks is parsed while its field is looked up,
which makes the recursion structural.
-/

set_option autoImplicit false

namespace DocumentRules

/-- What parsing gave for each field of an object that may hold checks. A field that is missing
gives nothing, and neither does a list of checks that is no array. -/
structure NestedChecks where
  checks : Option (Except Fault (List Check))
  condition : Option (Except Fault Condition)
  target : Option (Except Fault Check)

/-- The checks of a condition, which must be there and be an array. -/
def checksOf (fields : List (String × Json)) (parsed : Option (Except Fault (List Check))) :
    Except Fault (List Check) :=
  match fields.lookup "checks", parsed with
  | none, _ => .error (.structural (.missingList "Condition" "checks"))
  | some _, some checks => checks
  | some other, none => .error (.structural (.notList "Condition" "checks" other))

/-- A part that `context` cannot do without. -/
def requiredPart {α : Type} (context field : String) (parsed : Option (Except Fault α)) :
    Except Fault α :=
  match parsed with
  | some part => part
  | none => .error (.structural (.missingField context field))

/-- The member of a group that a check's operator spells. -/
def checkOperatorOf (α : Type) [Operator α] (symbol : String) : Except Fault α :=
  match Operator.ofSymbol? symbol with
  | some operator => .ok operator
  | none => .error (.checkOperator symbol)

/-- The check of an object, given what parsing gave for its nested checks. -/
def checkOfFields (fields : List (String × Json)) (nested : NestedChecks) : Except Fault Check := do
  match ← Fields.text? fields "operator" with
  | none => .error (.structural (.noOperator (.obj fields)))
  | some symbol =>
    match OperatorKind.ofSymbol? symbol with
    | some .connective =>
      let operator ← checkOperatorOf Connective symbol
      return .nested (.mk operator (← checksOf fields nested.checks))
    | some .comparison =>
      let operator ← checkOperatorOf Comparison symbol
      let path ← Fields.text fields "path" "Value check"
      return .compare path operator (.ofOption (fields.lookup "value"))
    | some .membership =>
      let path ← Fields.text fields "path" "Array check"
      return .contains path (← requiredPart "Array check" "condition" nested.condition)
    | some .inversion =>
      if Operator.ofSymbol? symbol = some Inversion.not then
        return .not (← requiredPart "Inversion check" "target" nested.target)
      else .error (.checkOperator symbol)
    | _ => .error (.checkOperator symbol)

/-- A check where a condition is wanted: only a nested condition will do. -/
def conditionOf (doc : Json) (check : Check) : Except Fault Condition :=
  match check with
  | .nested condition => .ok condition
  | _ => .error (.structural (.notCondition doc))

namespace Check

mutual

/-- The check that a document spells. -/
def ofJson : Json → Except Fault Check
  | .obj fields =>
    checkOfFields fields
      ⟨checksAt "checks" fields, conditionAt "condition" fields, checkAt "target" fields⟩
  | other => .error (.structural (.notObject "Check" other))
termination_by structural doc => doc

/-- The checks of a list of documents; the first that fails decides. -/
def listOfJson : List Json → Except Fault (List Check)
  | [] => .ok []
  | doc :: rest => do
    let check ← ofJson doc
    let checks ← listOfJson rest
    return check :: checks
termination_by structural docs => docs

/-- The checks of the array in the field `key`; nothing without the field, or if it is no array. -/
def checksAt (key : String) : List (String × Json) → Option (Except Fault (List Check))
  | [] => none
  | (k, .arr items) :: rest => if key == k then some (listOfJson items) else checksAt key rest
  | (k, _) :: rest => if key == k then none else checksAt key rest
termination_by structural fields => fields

/-- The condition in the field `key`; nothing without the field. -/
def conditionAt (key : String) : List (String × Json) → Option (Except Fault Condition)
  | [] => none
  | (k, doc) :: rest =>
    if key == k then some (ofJson doc >>= conditionOf doc) else conditionAt key rest
termination_by structural fields => fields

/-- The check in the field `key`; nothing without the field. -/
def checkAt (key : String) : List (String × Json) → Option (Except Fault Check)
  | [] => none
  | (k, doc) :: rest => if key == k then some (ofJson doc) else checkAt key rest
termination_by structural fields => fields

end

end Check

/-- The condition that a document spells. -/
def Condition.ofJson (doc : Json) : Except Fault Condition :=
  Check.ofJson doc >>= conditionOf doc

end DocumentRules
