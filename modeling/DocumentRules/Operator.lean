/-!
# Operators

Every operator of the rule language is a symbol, and every symbol belongs to one group. The groups
are enumerations with a meaning of their own — a comparison, an aggregate, a connective — and the
symbol is only how a member is spelled. `Operator` ties the two together once: a group lists its
members and spells each, and `Operator.ofSymbol?` is the search through that list. So the reading of
symbols cannot disagree with their writing, and adding an operator means adding it to its group.

`OperatorKind` says which group a symbol is from, along with the six operators that stand alone.
The parsers ask for the kind of a symbol (`OperatorKind.ofSymbol?`) and then for the member.
-/

set_option autoImplicit false

namespace DocumentRules

/-- A group of operators: its members in order, and the symbol of each. -/
class Operator (α : Type) where
  all : List α
  symbol : α → String

namespace Operator

/-- The symbols of a group, in order. -/
def symbols (α : Type) [Operator α] : List String :=
  (all : List α).map symbol

/-- The member of a group that a symbol spells. -/
def ofSymbol? {α : Type} [Operator α] (text : String) : Option α :=
  (all : List α).find? fun operator => symbol operator == text

end Operator

/-- Equality and order. -/
inductive Comparison where
  | eq | gt | lt | gte | lte
deriving Repr, DecidableEq

instance : Operator Comparison where
  all := [.eq, .gt, .lt, .gte, .lte]
  symbol
    | .eq => "="
    | .gt => ">"
    | .lt => "<"
    | .gte => ">="
    | .lte => "<="

/-- Negated comparisons; `not` and `!=` are two symbols for one meaning. -/
inductive Inversion where
  | not | ne | notGt | notLt | notGte | notLte
deriving Repr, DecidableEq

instance : Operator Inversion where
  all := [.not, .ne, .notGt, .notLt, .notGte, .notLte]
  symbol
    | .not => "not"
    | .ne => "!="
    | .notGt => "!>"
    | .notLt => "!<"
    | .notGte => "!>="
    | .notLte => "!<="

/-- The comparison that is negated. -/
def Inversion.positive : Inversion → Comparison
  | .not | .ne => .eq
  | .notGt => .gt
  | .notLt => .lt
  | .notGte => .gte
  | .notLte => .lte

/-- The search for an element of an array. -/
inductive Membership where
  | contains
deriving Repr, DecidableEq

instance : Operator Membership where
  all := [.contains]
  symbol
    | .contains => "contains"

/-- Rules run once per element of an array. -/
inductive Inspection where
  | filter | map
deriving Repr, DecidableEq

instance : Operator Inspection where
  all := [.filter, .map]
  symbol
    | .filter => "filter"
    | .map => "map"

/-- One value out of a whole array. -/
inductive Aggregate where
  | min | max | sum | mean | median | mode
deriving Repr, DecidableEq

instance : Operator Aggregate where
  all := [.min, .max, .sum, .mean, .median, .mode]
  symbol
    | .min => "min"
    | .max => "max"
    | .sum => "sum"
    | .mean => "mean"
    | .median => "median"
    | .mode => "mode"

/-- How the parts of a group or of a condition are joined. -/
inductive Connective where
  | and | or
deriving Repr, DecidableEq

instance : Operator Connective where
  all := [.and, .or]
  symbol
    | .and => "and"
    | .or => "or"

/-- The truth of a part that decides the whole: one false part makes a conjunction false, one true
part makes a disjunction true. If no part decides, the whole has the other truth value. -/
def Connective.deciding : Connective → Bool
  | .and => false
  | .or => true

/-- Operators that look at one value and need no other. -/
inductive Standalone where
  | isUndefined | isNotUndefined | isNull | isNotNull | abs
deriving Repr, DecidableEq

instance : Operator Standalone where
  all := [.isUndefined, .isNotUndefined, .isNull, .isNotNull, .abs]
  symbol
    | .isUndefined => "is undefined"
    | .isNotUndefined => "is not undefined"
    | .isNull => "is null"
    | .isNotNull => "is not null"
    | .abs => "abs"

/-- Arithmetic on one number. -/
inductive SelfArithmetic where
  | sqrt
deriving Repr, DecidableEq

instance : Operator SelfArithmetic where
  all := [.sqrt]
  symbol
    | .sqrt => "sqrt"

/-- Arithmetic on two numbers; `+` also joins texts. -/
inductive Arithmetic where
  | add | sub | mul | div | rem | pow
deriving Repr, DecidableEq

instance : Operator Arithmetic where
  all := [.add, .sub, .mul, .div, .rem, .pow]
  symbol
    | .add => "+"
    | .sub => "-"
    | .mul => "*"
    | .div => "/"
    | .rem => "%"
    | .pow => "^"

/-- The orders of sorting. The two with `=` put the later of two equal elements first. -/
inductive SortOrder where
  | ascending | descending | ascendingTiesReversed | descendingTiesReversed
deriving Repr, DecidableEq

instance : Operator SortOrder where
  all := [.ascending, .descending, .ascendingTiesReversed, .descendingTiesReversed]
  symbol
    | .ascending => ">"
    | .descending => "<"
    | .ascendingTiesReversed => ">="
    | .descendingTiesReversed => "<="

/-- How sorting compares two keys: by an order, or by the sign of an arithmetic result. -/
inductive SortComparison where
  | arithmetic (operator : Arithmetic)
  | order (order : SortOrder)
deriving Repr, DecidableEq

instance : Operator SortComparison where
  all := Operator.all.map SortComparison.arithmetic ++ Operator.all.map SortComparison.order
  symbol
    | .arithmetic operator => Operator.symbol operator
    | .order order => Operator.symbol order

/-- Sorting without a comparison of its own goes upward. -/
def SortComparison.default : SortComparison :=
  .order .ascending

/-- The group of a symbol, or the operator itself where it stands alone. -/
inductive OperatorKind where
  | comparison | inversion | membership | inspection | aggregate | connective | standalone
  | cast | set | length | slice | splice | sort | selfArithmetic | arithmetic
deriving Repr, DecidableEq

namespace OperatorKind

/-- All kinds. -/
def all : List OperatorKind :=
  [.standalone, .cast, .length, .slice, .splice, .sort, .inspection, .aggregate, .membership,
   .selfArithmetic, .set, .comparison, .inversion, .arithmetic, .connective]

/-- The symbols of a kind. -/
def symbols : OperatorKind → List String
  | .comparison => Operator.symbols Comparison
  | .inversion => Operator.symbols Inversion
  | .membership => Operator.symbols Membership
  | .inspection => Operator.symbols Inspection
  | .aggregate => Operator.symbols Aggregate
  | .connective => Operator.symbols Connective
  | .standalone => Operator.symbols Standalone
  | .cast => ["cast"]
  | .set => ["set"]
  | .length => ["len"]
  | .slice => ["slice"]
  | .splice => ["splice"]
  | .sort => ["sort"]
  | .selfArithmetic => Operator.symbols SelfArithmetic
  | .arithmetic => Operator.symbols Arithmetic

/-- The kind of a symbol; none for a text that is no operator. -/
def ofSymbol? (text : String) : Option OperatorKind :=
  all.find? fun kind => kind.symbols.contains text

end OperatorKind

end DocumentRules
