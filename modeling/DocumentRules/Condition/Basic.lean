import DocumentRules.Operator
import DocumentRules.Value.Basic

/-!
# Conditions

A condition joins checks by `and` or `or`. A check is a condition again, a comparison of the value
at a dotted path with an expected one, a search for an element of an array that meets a condition of
its own, or the negation of a check. The expected value of a comparison may be missing, which is not
the same as its being null.

A condition is spelled as an object with the symbol of its connective and its checks, and a check
as an object with the fields that its operator looks at. A comparison with nothing leaves its field
out, while a comparison with null writes null, so the two keep their difference.
-/

set_option autoImplicit false

namespace DocumentRules

mutual

/-- Checks joined by a connective. -/
inductive Condition where
  | mk (operator : Connective) (checks : List Check)

/-- One part of a condition. -/
inductive Check where
  /-- A condition within a condition. -/
  | nested (condition : Condition)
  /-- The value at a path, compared with an expected value. -/
  | compare (path : String) (operator : Comparison) (expected : Value)
  /-- Some element of the array at a path meets a condition. -/
  | contains (path : String) (condition : Condition)
  /-- The check does not hold. -/
  | not (target : Check)

end

/-- How the checks are joined. -/
def Condition.operator : Condition → Connective
  | .mk operator _ => operator

/-- The checks. -/
def Condition.checks : Condition → List Check
  | .mk _ checks => checks

/-! ## Documents from conditions -/

mutual

/-- The document that spells a condition. -/
def Condition.toJson : Condition → Json
  | .mk operator checks =>
    .obj (Table.ofEntries
      [("operator", .str (Operator.symbol operator)), ("checks", .arr (Check.listToJson checks))])
termination_by structural condition => condition

/-- The document that spells a check. -/
def Check.toJson : Check → Json
  | .nested condition => condition.toJson
  | .compare path operator expected =>
    .obj (Table.ofEntries
      (("path", .str path) :: ("operator", .str (Operator.symbol operator)) ::
        (expected.toOption.map ("value", ·)).toList))
  | .contains path condition =>
    .obj (Table.ofEntries
      [("path", .str path), ("operator", .str (Operator.symbol Membership.contains)),
       ("condition", condition.toJson)])
  | .not target =>
    .obj (Table.ofEntries
      [("operator", .str (Operator.symbol Inversion.not)), ("target", target.toJson)])
termination_by structural check => check

/-- The documents that spell the checks of a list. -/
def Check.listToJson : List Check → List Json
  | [] => []
  | check :: rest => check.toJson :: Check.listToJson rest
termination_by structural checks => checks

end

end DocumentRules
