import DocumentRules.Evaluation.Aggregate
import DocumentRules.Evaluation.Operation
import DocumentRules.Evaluation.Session

/-!
# The cascade

Rules run one after another, and each hands two things on: a value and a point. A rule with a path
reads its value there and moves to that point; a rule without one works on the value it was handed,
at the point it was handed. That is the cascade, and `Rule.run` is one step of it.

Rules nest, and the three ways of nesting differ in what they hand on *inside*:

* a group gives each of its rules the same value and the same point, and answers whether they were
  true;
* a sequence (the rules of an operand, of an element, of a sort key) hands the value on from rule to
  rule but keeps the point, so all of its paths are relative to one place;
* the top level hands on both.

None of the three lets a change of the current document out, but inside they do not shield their
rules from each other: a rule that moves to another document moves the rules after it as well.

An element of an array that was read at a point is a live child of that point, so rules that write
to the array see what they wrote. An array that comes from the cascade is not in the document, and
its elements carry themselves. The array that is gone through is in either case the one that was
there when the rule began.

The functions recurse along the rules. What is done per element goes through the loops below, which
take the step as a function, so the recursion stays structural although one rule may run its rules
many times.
-/

set_option autoImplicit false

namespace DocumentRules

/-- What a rule hands on: a value, and the point to go on from, if there is one yet. -/
structure Outcome where
  value : Value
  point : Option Point

/-- What a rule works on: a value, and the point it belongs to. The value is `live` if it was read
at that point, and not if it came from the cascade. -/
structure Reading where
  value : Value
  point : Point
  live : Bool

/-! ## Loops over the elements of an array -/

section Loops

variable {α : Type}

/-- Runs a step for every element, with its position, and collects the results. -/
def eachElement (step : Nat → Json → Run α) : Nat → List Json → Run (List α)
  | _, [] => return []
  | i, element :: rest => do
    let result ← step i element
    let results ← eachElement step (i + 1) rest
    return result :: results

/-- Runs a step for the elements until one answers true. -/
def anyElement (step : Nat → Json → Run Bool) : Nat → List Json → Run Bool
  | _, [] => return false
  | i, element :: rest => do
    if ← step i element then return true else anyElement step (i + 1) rest

end Loops

/-! ## Where a rule works -/

/-- The point of the element at a position of the array that was read: live in a live array of the
document, and otherwise carrying the element. -/
def Reading.elementPoint (reading : Reading) (i : Nat) (element : Json) : Point :=
  if reading.live && !reading.point.isDetached then reading.point.child (toString i)
  else reading.point.childCarrying (toString i) (some element)

/-- The way to a point that was handed on; without one the way is empty. -/
def trailOf (point : Option Point) : Except Fault (List Point) :=
  match point with
  | none => .ok []
  | some point => point.trail.mapError fun error => .structural (.pointer error)

/-- What a rule works on. With a path, the value that stands there now; the document of the path
becomes the current one. Without a path, what was handed on. -/
def takeReading (path : Option String) (point : Option Point) (cascade : Value) : Run Reading := do
  let trail ← Run.ofExcept (trailOf point)
  match path with
  | some path =>
    let session ← get
    let (document, target) ← Run.ofExcept ((session.follow path trail).mapError Fault.ofLocation)
    let _ ← Run.ofExcept (target.trail.mapError (Fault.ofPointer path))
    set { session with current := document }
    return ⟨session.read document target, target, true⟩
  | none =>
    match trail.getLast? with
    | some last => return ⟨cascade, last, false⟩
    | none => Run.fail (.structural .noPoint)

/-- Writes a value from a point, as a step. -/
def writeAt (pointer : String) (point : Point) (value : Value) : Run Unit := do
  let session ← get
  let session ← Run.ofExcept (session.write pointer point value.toJson)
  set session

/-! ## Running rules -/

/-- What filtering or mapping makes of an array and of the result for each of its elements. -/
def Inspection.collect (operator : Inspection) (items : List Json) (results : List Value) :
    List Json :=
  match operator with
  | .filter => ((items.zip results).filter fun (_, result) => result.truthy).map Prod.fst
  | .map => results.map Value.toJson

/-- The elements of an array with the keys found for them. -/
def keyed : Nat → List Json → List Value → List Keyed
  | i, item :: items, key :: keys => ⟨i, item, key⟩ :: keyed (i + 1) items keys
  | _, _, _ => []

mutual

/-- Runs a rule at a point, on the value handed on. -/
def Rule.run (rule : Rule) (point : Option Point) (cascade : Value) : Run Outcome :=
  match rule with
  | .group operator rules => do
    let verdict ← Run.inSameDocument (Rule.runGroup rules operator point cascade)
    return ⟨.ofBool verdict, point⟩
  | .path path => do
    let reading ← takeReading (some path) point cascade
    return ⟨reading.value, some reading.point⟩
  | .action path action => do
    let reading ← takeReading path point cascade
    action.run reading
termination_by structural rule

/-- Runs the rules of a group up to the first one that decides it. -/
def Rule.runGroup (rules : List Rule) (operator : Connective) (point : Option Point)
    (cascade : Value) : Run Bool :=
  match rules with
  | [] => return !operator.deciding
  | rule :: rest => do
    let outcome ← rule.run point cascade
    if outcome.value.truthy == operator.deciding then return operator.deciding
    else Rule.runGroup rest operator point cascade
termination_by structural rules

/-- Runs rules one after another at one point, handing on the value alone. -/
def Rule.runSteps (rules : List Rule) (point : Point) (cascade : Value) : Run Value :=
  match rules with
  | [] => return cascade
  | rule :: rest => do
    let outcome ← rule.run (some point) cascade
    Rule.runSteps rest point outcome.value
termination_by structural rules

/-- Runs an action on what its rule works on. All but filtering and mapping stay at the point. -/
def Action.run (action : Action) (reading : Reading) : Run Outcome :=
  match action with
  | .standalone operator => do
    return ⟨← Run.ofExcept (operator.apply reading.value), some reading.point⟩
  | .cast target => do
    return ⟨← Run.ofExcept (target.apply reading.value), some reading.point⟩
  | .length => do
    let items ← Run.ofExcept (arrayFor "len" reading.value)
    return ⟨.json (.ofInt items.length), some reading.point⟩
  | .slice first last => do
    return ⟨← Run.ofExcept (slice first last reading.value), some reading.point⟩
  | .splice first deleted items => do
    return ⟨← Run.ofExcept (splice first deleted items reading.value), some reading.point⟩
  | .sort keys comparison => do
    let items ← Run.ofExcept (arrayFor "sort" reading.value)
    let found ← eachElement (fun i element =>
      Run.inSameDocument (Rule.runSteps keys (reading.elementPoint i element) (.json element)))
      0 items
    let sorted ← Run.ofExcept (insertionSort comparison.comesAfter (keyed 0 items found))
    return ⟨.ofItems (sorted.map Keyed.item), some reading.point⟩
  | .inspect operator none => do
    let _ ← Run.ofExcept (arrayFor (Operator.symbol operator) reading.value)
    Run.fail (.domain (.noElementRules (Operator.symbol operator)))
  | .inspect operator (some rules) => do
    let items ← Run.ofExcept (arrayFor (Operator.symbol operator) reading.value)
    let results ← eachElement (fun i element =>
      Run.inSameDocument (Rule.runSteps rules (reading.elementPoint i element) (.json element)))
      0 items
    let collected := operator.collect items results
    return ⟨.ofItems collected, some (reading.point.carrying (some (.arr collected)))⟩
  | .aggregate operator => do
    return ⟨← Run.ofExcept (operator.apply reading.value), some reading.point⟩
  | .contains none => do
    -- Nothing is looked for, and nothing is never an element.
    let _ ← Run.ofExcept (arrayFor (Operator.symbol Membership.contains) reading.value)
    return ⟨.ofBool false, some reading.point⟩
  | .contains (some wanted) => do
    let items ← Run.ofExcept (arrayFor (Operator.symbol Membership.contains) reading.value)
    let found ← anyElement (fun i element => do
      let value ← wanted.run (reading.elementPoint i element) (.json element)
      return Value.strictEq (.json element) value) 0 items
    return ⟨.ofBool found, some reading.point⟩
  | .selfArithmetic operator => do
    return ⟨← Run.ofExcept (operator.apply reading.value), some reading.point⟩
  | .set path none => do
    writeAt path reading.point reading.value
    return ⟨reading.value, some reading.point⟩
  | .set path (some operand) => do
    let value ← operand.run reading.point reading.value
    writeAt path reading.point value
    return ⟨reading.value, some reading.point⟩
  | .binary operator operand => do
    let right ← operand.run reading.point reading.value
    return ⟨← Run.ofExcept (operator.apply reading.value right), some reading.point⟩
termination_by structural action

/-- Finds the right side of an operator at a point: a literal is itself, and rules start with the
value on the left. -/
def Operand.run (operand : Operand) (point : Point) (value : Value) : Run Value :=
  match operand with
  | .literal value => return .json value
  | .derived rules => Run.inSameDocument (Rule.runSteps rules point value)
termination_by structural operand

end

/-- Runs rules one after another, handing on value and point, and gives the last value. -/
def Rule.runAll : List Rule → Outcome → Run Value
  | [], outcome => return outcome.value
  | rule :: rest, outcome => do
    let outcome ← rule.run outcome.point outcome.value
    Rule.runAll rest outcome

end DocumentRules
