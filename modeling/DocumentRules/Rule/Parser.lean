import DocumentRules.Fault
import DocumentRules.Rule.Basic

/-!
# Rules from documents

A rule is spelled as an object. The operator comes first: with `and` or `or` and an array of rules
the object is a group; a path alone is a path; anything else must have an operator, and the kind of
the operator decides which fields are looked at. All faults of form are found here, before a rule
runs, and they are found in a fixed order, so an object with two of them has one definite fault.

The rules nested in a field are parsed while the field is looked up (`rulesAt`), instead of looking
the field up first and parsing what was found. The two are the same function, but the first one
recurses along the object itself, which keeps the whole parser structural.
-/

set_option autoImplicit false

namespace DocumentRules

/-- The target that a cast names; without a name it is called undefined, and a name that is no text
is kept as it is printed. -/
def CastTarget.ofField : Option Json → CastTarget
  | some (.str "string") => .text
  | some (.str "boolean") => .boolean
  | some (.str "number") => .number
  | some (.str "JSON") => .document
  | some (.str other) => .unsupported other
  | some other => .unsupported other.render
  | none => .unsupported "undefined"

/-- The fault of an operator that is unknown, or that no rule may have. -/
def unknownOperator (symbol : String) : Fault :=
  .structural (.unknownOperator symbol)

/-- The member of a group that `symbol` spells. -/
def operatorOf (α : Type) [Operator α] (symbol : String) : Except Fault α :=
  match Operator.ofSymbol? symbol with
  | some operator => .ok operator
  | none => .error (unknownOperator symbol)

/-- The comparison of a sort, upward unless one is given. -/
def SortComparison.ofFields (fields : List (String × Json)) : Except Fault SortComparison := do
  match ← Fields.text? fields "comparisonOperator" with
  | none => return .default
  | some symbol =>
    match Operator.ofSymbol? symbol with
    | some comparison => return comparison
    | none => .error (.structural (.unknownSortComparison symbol))

/-- The rules of an optional field that must hold an array if it is there. `parsed` is what parsing
the field gave, which is nothing for a field that holds no array. -/
def rulesOrFault (fields : List (String × Json)) (key : String)
    (parsed : Option (Except Fault (List Rule))) : Except Fault (Option (List Rule)) :=
  match fields.lookup key, parsed with
  | none, _ => .ok none
  | some _, some rules => rules.map some
  | some other, none => .error (.structural (.notRules key other))

/-- The operand of an operator: rules that find it win over a literal value. -/
def operandOf (fields : List (String × Json)) (parsed : Option (Except Fault (List Rule))) :
    Except Fault (Option Operand) := do
  match ← rulesOrFault fields "getValue" parsed with
  | some rules => return some (.derived rules)
  | none => return (fields.lookup "value").map .literal

/-- What parsing gave for each field of an object that may hold rules. A field that is missing or
holds no array gives nothing. -/
structure NestedRules where
  members : Option (Except Fault (List Rule))
  operand : Option (Except Fault (List Rule))
  sortKeys : Option (Except Fault (List Rule))

/-- The action of an object with the operator `symbol`. -/
def actionOf (symbol : String) (fields : List (String × Json)) (nested : NestedRules) :
    Except Fault Action := do
  match OperatorKind.ofSymbol? symbol with
  | none => .error (unknownOperator symbol)
  | some .standalone => return .standalone (← operatorOf Standalone symbol)
  | some .cast => return .cast (CastTarget.ofField (fields.lookup "castTo"))
  | some .length => return .length
  | some .slice => return .slice (fields.lookup "startIndex") (fields.lookup "endIndex")
  | some .splice =>
    return .splice (fields.lookup "startIndex") (fields.lookup "deleteCount")
      (fields.lookup "itemsToAdd")
  | some .sort =>
    let keys ← rulesOrFault fields "getComparisonValue" nested.sortKeys
    let comparison ← SortComparison.ofFields fields
    return .sort (keys.getD []) comparison
  | some .inspection =>
    let operator ← operatorOf Inspection symbol
    match nested.members with
    | some rules => return .inspect operator (some (← rules))
    | none => return .inspect operator none
  | some .aggregate => return .aggregate (← operatorOf Aggregate symbol)
  | some .membership => return .contains (← operandOf fields nested.operand)
  | some .selfArithmetic => return .selfArithmetic (← operatorOf SelfArithmetic symbol)
  | some .set =>
    let path ← Fields.text fields "setPath" "Set rule"
    return .set path (← operandOf fields nested.operand)
  | some .comparison | some .inversion | some .arithmetic =>
    let operator ← operatorOf BinaryOperator symbol
    match ← operandOf fields nested.operand with
    | some operand => return .binary operator operand
    | none => .error (.structural (.missingOperand symbol))
  | some .connective => .error (unknownOperator symbol)

/-- The rule of an object, given what parsing gave for its nested rules. An
empty path is no path. -/
def ruleOfFields (fields : List (String × Json)) (nested : NestedRules) : Except Fault Rule := do
  let symbol ← Fields.text? fields "operator"
  match symbol.bind Operator.ofSymbol?, nested.members with
  | some connective, some rules => return .group connective (← rules)
  | _, _ =>
    let path := (← Fields.text? fields "path").filter (· != "")
    match path, fields.length with
    | some path, 1 => return .path path
    | _, _ =>
      match symbol with
      | none => .error (.structural (.noAction (.obj fields)))
      | some symbol => return .action path (← actionOf symbol fields nested)

namespace Rule

mutual

/-- The rule that a document spells. -/
def ofJson : Json → Except Fault Rule
  | .obj fields =>
    ruleOfFields fields
      ⟨rulesAt "rules" fields, rulesAt "getValue" fields, rulesAt "getComparisonValue" fields⟩
  | other => .error (.structural (.notObject "Rule" other))
termination_by structural doc => doc

/-- The rules of a list of documents; the first that fails decides. -/
def listOfJson : List Json → Except Fault (List Rule)
  | [] => .ok []
  | doc :: rest => do
    let rule ← ofJson doc
    let rules ← listOfJson rest
    return rule :: rules
termination_by structural docs => docs

/-- The rules of the array in the field `key`; nothing without the field, or if it is no array. -/
def rulesAt (key : String) : List (String × Json) → Option (Except Fault (List Rule))
  | [] => none
  | (k, .arr items) :: rest => if key == k then some (listOfJson items) else rulesAt key rest
  | (k, _) :: rest => if key == k then none else rulesAt key rest
termination_by structural fields => fields

end

/-- The rules that a document spells, which must be an array. -/
def rulesOfJson : Json → Except Fault (List Rule)
  | .arr items => listOfJson items
  | other => .error (.structural (.notRuleList other))

end Rule

end DocumentRules
