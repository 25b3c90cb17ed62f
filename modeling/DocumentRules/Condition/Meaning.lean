import DocumentRules.Condition.Verdict

/-!
# What conditions mean

`Condition.decide` keeps what it has looked up, so its answer is reached through a state that grows
from check to check. What a condition *means* needs no state: a path leads to the same value however
often it is followed. `Condition.meaning` says so, and says the rest of what a decision is: checks
are asked from left to right, the first that decides the connective ends the asking, and so does the
first that fails.

A list of checks has a meaning of its own (`Check.meaningAll`), which is how a condition within a
condition is compared with its checks written out in place.
-/

set_option autoImplicit false

namespace DocumentRules

mutual

/-- The truth of a condition about `data`. -/
def Condition.meaning (cast : Bool) (condition : Condition) (data : Json) : Except Fault Bool :=
  match condition with
  | .mk operator checks => Check.meaningAll cast checks operator data
termination_by structural condition

/-- The truth of a check about `data`. -/
def Check.meaning (cast : Bool) (check : Check) (data : Json) : Except Fault Bool :=
  match check with
  | .nested condition => condition.meaning cast data
  | .compare path operator expected => .ok (operator.holdsCast cast (data.dotted path) expected)
  | .contains path condition => do
    anyItem (fun item => condition.meaning cast item) (← searchedItems path (data.dotted path))
  | .not target => do
    return !(← target.meaning cast data)
termination_by structural check

/-- The truth of checks joined by a connective. -/
def Check.meaningAll (cast : Bool) (checks : List Check) (operator : Connective) (data : Json) :
    Except Fault Bool :=
  match checks with
  | [] => .ok (!operator.deciding)
  | check :: rest => do
    if (← check.meaning cast data) == operator.deciding then return operator.deciding
    else Check.meaningAll cast rest operator data
termination_by structural checks

end

end DocumentRules
