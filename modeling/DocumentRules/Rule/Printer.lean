import DocumentRules.Json.Basic
import DocumentRules.Rule.Basic

/-!
# Documents from rules

Every rule has one spelling: an object with the symbol of its operator, its path if it has one, and
exactly the fields that its operator looks at. What a rule leaves out is left out, so a missing
operand stays different from one that is null; only sorting writes its keys and its comparison out
even where they are the ones that a missing field would mean.

The fields are listed here in the order in which a reader wants them, and `Table.ofEntries` puts
them into the order of an object.
-/

set_option autoImplicit false

namespace DocumentRules

/-- The name of a cast's target. -/
def CastTarget.name : CastTarget → String
  | .text => "string"
  | .boolean => "boolean"
  | .number => "number"
  | .document => "JSON"
  | .unsupported name => name

/-- A field that is left out if there is nothing to write. -/
def optionalField (key : String) (value : Option Json) : List (String × Json) :=
  (value.map (key, ·)).toList

mutual

/-- The document that spells a rule. -/
def Rule.toJson : Rule → Json
  | .group operator rules =>
    .obj (Table.ofEntries
      [("operator", .str (Operator.symbol operator)), ("rules", .arr (Rule.listToJson rules))])
  | .path path => .obj [("path", .str path)]
  | .action path action =>
    .obj (Table.ofEntries
      (("operator", .str action.symbol) :: optionalField "path" (path.map .str) ++ action.toFields))
termination_by structural rule => rule

/-- The documents that spell the rules of a list. -/
def Rule.listToJson : List Rule → List Json
  | [] => []
  | rule :: rest => rule.toJson :: Rule.listToJson rest
termination_by structural rules => rules

/-- The fields of an action beside its operator. -/
def Action.toFields : Action → List (String × Json)
  | .standalone _ | .length | .aggregate _ | .selfArithmetic _ => []
  | .cast target => [("castTo", .str target.name)]
  | .slice first last => optionalField "startIndex" first ++ optionalField "endIndex" last
  | .splice first deleted items =>
    optionalField "startIndex" first ++ optionalField "deleteCount" deleted ++
      optionalField "itemsToAdd" items
  | .sort keys comparison =>
    [("getComparisonValue", .arr (Rule.listToJson keys)),
     ("comparisonOperator", .str (Operator.symbol comparison))]
  | .inspect _ none => []
  | .inspect _ (some rules) => [("rules", .arr (Rule.listToJson rules))]
  | .contains none => []
  | .contains (some wanted) => [wanted.toField]
  | .set path none => [("setPath", .str path)]
  | .set path (some operand) => [("setPath", .str path), operand.toField]
  | .binary _ operand => [operand.toField]
termination_by structural action => action

/-- The field of an operand. -/
def Operand.toField : Operand → String × Json
  | .literal value => ("value", value)
  | .derived rules => ("getValue", .arr (Rule.listToJson rules))
termination_by structural operand => operand

end

end DocumentRules
