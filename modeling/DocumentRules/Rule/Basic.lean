import DocumentRules.Json.Basic
import DocumentRules.Operator

/-!
# Rules

A rule is one of three things: a group of rules joined by a connective, a path to be read, or an
action — an operator, with what it needs, on the value at a path or on the value that the rule
before it left. Each operator has exactly the operands its kind takes, so an action that lacks one
cannot be written down.

Indices of a slice or a splice are kept as they were given. Whether they are numbers is a question
about values, asked when the rule runs, and not about the form of the rule.
-/

set_option autoImplicit false

namespace DocumentRules

/-- What a value is cast to. Any other name is kept, and refused when the rule runs. -/
inductive CastTarget where
  | text
  | boolean
  | number
  | document
  | unsupported (name : String)
deriving Repr, DecidableEq

/-- The operators with a value on the left and an operand on the right. -/
inductive BinaryOperator where
  | comparison (operator : Comparison)
  | inversion (operator : Inversion)
  | arithmetic (operator : Arithmetic)
deriving Repr, DecidableEq

instance : Operator BinaryOperator where
  all :=
    Operator.all.map BinaryOperator.comparison ++ Operator.all.map BinaryOperator.inversion ++
      Operator.all.map BinaryOperator.arithmetic
  symbol
    | .comparison operator => Operator.symbol operator
    | .inversion operator => Operator.symbol operator
    | .arithmetic operator => Operator.symbol operator

mutual

/-- A rule. -/
inductive Rule where
  /-- Rules joined by a connective. -/
  | group (operator : Connective) (rules : List Rule)
  /-- A path, and nothing done with what is there. -/
  | path (path : String)
  /-- An operator on the value at a path, or without one on the value handed on. -/
  | action (path : Option String) (action : Action)

/-- An operator with its operands. -/
inductive Action where
  | standalone (operator : Standalone)
  | cast (target : CastTarget)
  | length
  | slice (first last : Option Json)
  | splice (first deleted items : Option Json)
  | sort (keys : List Rule) (comparison : SortComparison)
  | inspect (operator : Inspection) (rules : Option (List Rule))
  | aggregate (operator : Aggregate)
  | contains (wanted : Option Operand)
  | selfArithmetic (operator : SelfArithmetic)
  | set (path : String) (operand : Option Operand)
  | binary (operator : BinaryOperator) (operand : Operand)

/-- The right side of an operator: a value given in the rule, or rules that find it. -/
inductive Operand where
  | literal (value : Json)
  | derived (rules : List Rule)

end

/-- The symbol of an action's operator. -/
def Action.symbol : Action → String
  | .standalone operator => Operator.symbol operator
  | .cast _ => "cast"
  | .length => "len"
  | .slice _ _ => "slice"
  | .splice _ _ _ => "splice"
  | .sort _ _ => "sort"
  | .inspect operator _ => Operator.symbol operator
  | .aggregate operator => Operator.symbol operator
  | .contains _ => Operator.symbol Membership.contains
  | .selfArithmetic operator => Operator.symbol operator
  | .set _ _ => "set"
  | .binary operator _ => Operator.symbol operator

end DocumentRules
