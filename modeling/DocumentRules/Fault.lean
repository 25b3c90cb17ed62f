import DocumentRules.Pointer.Path
import DocumentRules.Value.Text

/-!
# Why a rule or a condition fails

Failures come in five kinds, and the kind is what a caller acts on. A *structural* fault lies in the
rules, the conditions or the set of documents: nothing needed to run to find it. A *domain* fault is
a value of the wrong sort reaching an operator while rules run. Then a condition may search in
something that is no array, a check may have an operator that checks do not know, and a path may be
refused or lead above the root.

Every fault is a constructor that holds what it is about, and the wording is in one function per
kind. So a statement about *which* fault arises never has to mention a text, and the texts can be
read in one place.

A write that fails is a domain fault whatever went wrong with its path; the cause is kept inside
(`WriteFailure`).

Rules and conditions arrive as objects, and `Fields` has the readings of a field that both parsers
share: a text that may be missing, a text that may not. A field that is present with the wrong kind
of value is always a fault, also where the field itself is optional, since a misspelt rule is more
likely than a deliberate one.
-/

set_option autoImplicit false

namespace DocumentRules

/-- A rule, a condition or a set of documents that is not well formed, or a
run that cannot go on. -/
inductive StructuralFault where
  | notRuleList (got : Json)
  | notObject (what : String) (got : Json)
  | notText (field : String) (got : Json)
  | missingField (context field : String)
  | missingList (context field : String)
  | notList (context field : String) (got : Json)
  | notRules (field : String) (got : Json)
  | unknownOperator (symbol : String)
  | unknownSortComparison (symbol : String)
  | missingOperand (symbol : String)
  | noAction (rule : Json)
  | noOperator (check : Json)
  | notCondition (got : Json)
  | noRules
  | noDocuments
  | documentNotObject (got : Json)
  | idNotText (got : Json)
  | idMissing
  | idReserved
  | idDuplicate (id : String)
  | unknownPrimary (id : String)
  | unknownDocument (id : String)
  | pointer (error : PointerError)
  | noPoint

namespace StructuralFault

/-- The wording of a structural fault. -/
def message : StructuralFault → String
  | .notRuleList got => "Rules must be an array, got " ++ got.render
  | .notObject what got => what ++ " must be an object, got " ++ got.render
  | .notText field got => "Field \"" ++ field ++ "\" must be a string, got " ++ got.render
  | .missingField context field => context ++ " requires a \"" ++ field ++ "\""
  | .missingList context field => context ++ " requires \"" ++ field ++ "\""
  | .notList context field got =>
    context ++ ": \"" ++ field ++ "\" must be an array, got " ++ got.render
  | .notRules field got => "\"" ++ field ++ "\" must be an array of rules, got " ++ got.render
  | .unknownOperator symbol => "Operator '" ++ symbol ++ "' not implemented"
  | .unknownSortComparison symbol => "Sort comparison operator '" ++ symbol ++ "' not implemented"
  | .missingOperand symbol =>
    "Operator '" ++ symbol ++ "' requires a \"value\" or \"getValue\""
  | .noAction rule => "Unable to process rule. No action defined: " ++ rule.render
  | .noOperator check => "Check has no operator: " ++ check.render
  | .notCondition got =>
    "Expected a condition with \"and\"/\"or\" and \"checks\", got " ++ got.render
  | .noRules => "No rules provided"
  | .noDocuments => "No documents provided"
  | .documentNotObject got => "Document must be an object, got " ++ got.render
  | .idNotText got => "Document \"$id\" must be a string, got " ++ got.render
  | .idMissing => "Document is missing \"$id\""
  | .idReserved => "Document id \"$vars\" is reserved"
  | .idDuplicate id => "Duplicate document id \"" ++ id ++ "\""
  | .unknownPrimary id => "Primary document \"" ++ id ++ "\" not found"
  | .unknownDocument id => "Unknown document \"" ++ id ++ "\""
  | .pointer error => error.message
  | .noPoint => "Unable to traverse JSON document: no path and no previous reference point"

end StructuralFault

/-- Why the place that a path names cannot be found. -/
inductive LocationFault where
  | badPath (path : String) (cause : PointerError)
  | unknownDocument (id : String)

/-- The wording for a path that is refused or cannot be followed. -/
def badPathMessage (path : String) (cause : PointerError) : String :=
  "Invalid path \"" ++ path ++ "\": " ++ cause.message

/-- The wording of a location fault. -/
def LocationFault.message : LocationFault → String
  | .badPath path cause => badPathMessage path cause
  | .unknownDocument id => (StructuralFault.unknownDocument id).message

/-- Why a write fails: its place is not found, or cannot be written. -/
inductive WriteFailure where
  | place (fault : LocationFault)
  | pointer (error : PointerError)

/-- The wording of the cause of a failed write. -/
def WriteFailure.message : WriteFailure → String
  | .place fault => fault.message
  | .pointer error => error.message

/-- A value of the wrong sort for an operator. -/
inductive DomainFault where
  | notArray (operator : String) (value : Value)
  | emptyArray (operator : String)
  | nonNumericElement (operator : String) (value : Value)
  | notFinite (operator : String)
  | nonNumericOperands (operator : String) (left right : Value)
  | nonNumericOperand (operator : String) (value : Value)
  | zeroDivisor (operator : String) (dividend : Value)
  | absOfNonNumber (value : Value)
  | castToNumber (value : Value)
  | castToDocument (text : String)
  | castUnsupported (name : String)
  | indexNotNumber (field operator : String) (got : Json)
  | itemsNotArray (got : Json)
  | noElementRules (operator : String)
  | cannotSet (path : String) (cause : WriteFailure)
  | unknownDocument (id : String)

namespace DomainFault

/-- The wording of a domain fault. -/
def message : DomainFault → String
  | .notArray operator value =>
    "Cannot perform \"" ++ operator ++ "\" on non-array. Value: " ++ value.describe
  | .emptyArray operator => "Cannot perform \"" ++ operator ++ "\" on an empty array"
  | .nonNumericElement operator value =>
    "Cannot perform \"" ++ operator ++ "\" on non-numeric element. Value: " ++ value.describe
  | .notFinite operator => "Operation \"" ++ operator ++ "\" produced a non-finite result"
  | .nonNumericOperands operator left right =>
    "Cannot perform operation on non-numeric. Attempted \"" ++ operator ++ "\" between " ++
      left.describe ++ " and " ++ right.describe
  | .nonNumericOperand operator value =>
    "Cannot perform operation \"" ++ operator ++ "\" on non-numeric. Value: " ++ value.describe
  | .zeroDivisor operator dividend =>
    "Cannot perform \"" ++ operator ++ "\" with a zero divisor. Value: " ++ dividend.describe
  | .absOfNonNumber value =>
    "Cannot perform operation \"abs\" on non-number. Value: " ++ value.describe
  | .castToNumber value => "Cannot cast non-numeric value to number. Value: " ++ value.describe
  | .castToDocument text => "Unable to cast to JSON. Value: " ++ text
  | .castUnsupported name => "Casting to \"" ++ name ++ "\" not currently supported"
  | .indexNotNumber field operator got =>
    "\"" ++ field ++ "\" for \"" ++ operator ++ "\" must be a number, got " ++ got.render
  | .itemsNotArray got => "\"itemsToAdd\" for \"splice\" must be an array, got " ++ got.render
  | .noElementRules operator => "No rules array provided for array \"" ++ operator ++ "\""
  | .cannotSet path cause => "Unable to set \"" ++ path ++ "\": " ++ cause.message
  | .unknownDocument id => (StructuralFault.unknownDocument id).message

end DomainFault

/-- A failure of a rule or a condition. -/
inductive Fault where
  | structural (fault : StructuralFault)
  | domain (fault : DomainFault)
  | searchTarget (path : String)
  | checkOperator (symbol : String)
  | badPath (path : String) (cause : PointerError)

namespace Fault

/-- The wording of a failure. -/
def message : Fault → String
  | .structural fault => fault.message
  | .domain fault => fault.message
  | .searchTarget path =>
    "Invalid target for check: \"" ++ path ++ "\" does not resolve to an array"
  | .checkOperator symbol => "Invalid operator for check: " ++ symbol
  | .badPath path cause => badPathMessage path cause

/-- A pointer error met while following `path`. A chain of points that comes back to itself is not
the fault of the path. -/
def ofPointer (path : String) : PointerError → Fault
  | .cycle repeated => .structural (.pointer (.cycle repeated))
  | other => .badPath path other

/-- A place that cannot be found, as a failure of the rule that reads there. -/
def ofLocation : LocationFault → Fault
  | .badPath path cause => ofPointer path cause
  | .unknownDocument id => .structural (.unknownDocument id)

end Fault

namespace Fields

/-- The text in a field, if the field is there. -/
def text? (fields : List (String × Json)) (key : String) : Except Fault (Option String) :=
  match fields.lookup key with
  | none => .ok none
  | some (.str text) => .ok (some text)
  | some other => .error (.structural (.notText key other))

/-- The text in a field that `context` cannot do without. -/
def text (fields : List (String × Json)) (key context : String) : Except Fault String := do
  match ← text? fields key with
  | some text => return text
  | none => .error (.structural (.missingField context key))

end Fields

end DocumentRules
