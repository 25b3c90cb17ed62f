import DocumentRules.Evaluation.Evaluator
import DocumentRules.Proofs.Evaluation.Step

/-!
# What happens in a run

A run calls rules, reads at paths and writes at paths, and most of what is promised about runs is
about the order in which that happens. The trace of a run is the list of those events, each with the
session it happened in.

The traces below are defined beside the functions of `DocumentRules.Evaluation.Cascade`, one for
each, and they do not run anything themselves: a trace follows a step with `Trace.andThen`, which
asks the step itself for the session that it leaves and for the result that the next one starts
from. So a trace is about the run that there is, and it ends where the run fails.

A point does not know its document, a place does. The trace therefore hands on places where the
evaluation hands on points: a place that a path leads to is in the document the path was located in,
and the points that are made from a point (those of elements, and the one that carries what
filtering made) are in the document of that point.

What a place does not say is which document is *current*. Inside a group or a sequence the rules
before a rule may have led elsewhere, and a `Site` keeps the place that they led to last.
-/

set_option autoImplicit false

namespace DocumentRules

/-! ## Sites and events -/

/-- Where a rule is called: the place that it is handed, if there is one, and the place that a path
has led to since, if a rule before it has followed one. A rule that is called inside a rule without
a path still stands where that rule stood; a path begins a new site. -/
structure Site where
  place : Option Place
  latest : Option Place

namespace Site

/-- The point that a rule is handed. -/
def point (site : Site) : Option Point :=
  site.place.map Place.point

/-- The place that decides which document is current. -/
def guide (site : Site) : Option Place :=
  site.latest <|> site.place

/-- The site inside a rule that has followed its path to a place, or has none. -/
def entered (site : Site) : Option Place → Site
  | some place => ⟨some place, none⟩
  | none => site

/-- The site of the next rule, after one that has followed its path to a place, or has none. -/
def passed (site : Site) (landing : Option Place) : Site :=
  { site with latest := landing <|> site.latest }

/-- The same site at a point made from its own. -/
def moved (site : Site) (point : Point) : Site :=
  { site with place := site.place.map fun place => ⟨place.document, point⟩ }

end Site

/-- What happens in a run, and in which session. -/
inductive Event where
  /-- A rule is called at a site, with the value handed on. -/
  | called (rule : Rule) (site : Site) (cascade : Value) (session : Session)
  /-- A rule has followed its path and reads a value. -/
  | read (path : String) (site : Site) (place : Place) (value : Value) (session : Session)
  /-- A value is written, and leaves another session. -/
  | wrote (path : String) (site : Site) (place : Place) (value : Json) (before after : Session)

/-- The path at which a rule itself reads. -/
def Rule.path? : Rule → Option String
  | .group _ _ => none
  | .path own => some own
  | .action own _ => own

/-- The place that a path leads to, if there is a path and it leads somewhere. -/
def Session.landing (s : Session) (path : Option String) (point : Option Point) : Option Place :=
  path.bind fun path => (s.locate path point).toOption

/-! ## Traces of steps -/

/-- The events of a step that is started in a session. -/
abbrev Trace := Session → List Event

namespace Trace

variable {α : Type}

/-- The events of a step that neither calls a rule nor reads nor writes. -/
def silent : Trace :=
  fun _ => []

/-- The events of a step, and then those of what follows it, if it succeeds. -/
def andThen (events : Trace) (step : Run α) (next : α → Trace) : Trace := fun s =>
  events s ++
    match step.on s with
    | (.ok a, t) => next a t
    | (.error _, _) => []

/-- The events of `eachElement`. -/
def each (events : Nat → Json → Trace) (step : Nat → Json → Run α) : Nat → List Json → Trace
  | _, [] => silent
  | i, element :: rest => (events i element).andThen (step i element) fun _ =>
      each events step (i + 1) rest

/-- The events of `anyElement`. -/
def any (events : Nat → Json → Trace) (step : Nat → Json → Run Bool) : Nat → List Json → Trace
  | _, [] => silent
  | i, element :: rest => (events i element).andThen (step i element) fun found =>
      if found then silent else any events step (i + 1) rest

/-- The events of `takeReading`. -/
def reading (path : Option String) (site : Site) : Trace := fun s =>
  match path with
  | none => []
  | some path =>
    match s.locate path site.point with
    | .ok place => [.read path site place (s.valueAt place) s]
    | .error _ => []

/-- The events of `writeAt`. -/
def writing (path : String) (site : Site) (point : Point) (value : Value) : Trace := fun s =>
  match s.locate path (some point), s.write path point value.toJson with
  | .ok place, .ok t => [.wrote path site place value.toJson s t]
  | _, _ => []

end Trace

/-! ## Traces of rules -/

mutual

/-- The events of `Rule.run`. -/
def Rule.trace (rule : Rule) (site : Site) (cascade : Value) : Trace := fun s =>
  .called rule site cascade s ::
    match rule with
    | .group operator rules => Rule.traceGroup rules operator site cascade s
    | .path path => Trace.reading (some path) site s
    | .action path action =>
      (Trace.reading path site).andThen (takeReading path site.point cascade)
        (fun reading => action.trace (site.entered (s.landing path site.point)) reading) s
termination_by structural rule

/-- The events of `Rule.runGroup`. -/
def Rule.traceGroup (rules : List Rule) (operator : Connective) (site : Site) (cascade : Value) :
    Trace := fun s =>
  match rules with
  | [] => []
  | rule :: rest =>
    (rule.trace site cascade).andThen (rule.run site.point cascade)
      (fun outcome =>
        if outcome.value.truthy == operator.deciding then .silent
        else Rule.traceGroup rest operator (site.passed (s.landing rule.path? site.point)) cascade)
      s
termination_by structural rules

/-- The events of `Rule.runSteps`. -/
def Rule.traceSteps (rules : List Rule) (site : Site) (cascade : Value) : Trace := fun s =>
  match rules with
  | [] => []
  | rule :: rest =>
    (rule.trace site cascade).andThen (rule.run site.point cascade)
      (fun outcome =>
        Rule.traceSteps rest (site.passed (s.landing rule.path? site.point)) outcome.value)
      s
termination_by structural rules

/-- The events of `Action.run`, at the site of the reading. -/
def Action.trace (action : Action) (site : Site) (reading : Reading) : Trace :=
  match action with
  | .sort keys _ =>
    Trace.silent.andThen (Run.ofExcept (arrayFor "sort" reading.value)) fun items =>
      Trace.each
        (fun i element =>
          Rule.traceSteps keys (site.moved (reading.elementPoint i element)) (.json element))
        (fun i element => Run.inSameDocument
          (Rule.runSteps keys (reading.elementPoint i element) (.json element)))
        0 items
  | .inspect operator (some rules) =>
    Trace.silent.andThen (Run.ofExcept (arrayFor (Operator.symbol operator) reading.value))
      fun items =>
        Trace.each
          (fun i element =>
            Rule.traceSteps rules (site.moved (reading.elementPoint i element)) (.json element))
          (fun i element => Run.inSameDocument
            (Rule.runSteps rules (reading.elementPoint i element) (.json element)))
          0 items
  | .contains (some wanted) =>
    Trace.silent.andThen
      (Run.ofExcept (arrayFor (Operator.symbol Membership.contains) reading.value)) fun items =>
        Trace.any
          (fun i element =>
            wanted.trace (site.moved (reading.elementPoint i element)) (.json element))
          (fun i element => do
            let value ← wanted.run (reading.elementPoint i element) (.json element)
            return Value.strictEq (.json element) value)
          0 items
  | .set path none => Trace.writing path site reading.point reading.value
  | .set path (some operand) =>
    (operand.trace site reading.value).andThen (operand.run reading.point reading.value)
      fun value => Trace.writing path site reading.point value
  | .binary _ operand => operand.trace site reading.value
  | .standalone _ | .cast _ | .length | .slice _ _ | .splice _ _ _ | .inspect _ none
  | .aggregate _ | .contains none | .selfArithmetic _ => .silent
termination_by structural action

/-- The events of `Operand.run`. -/
def Operand.trace (operand : Operand) (site : Site) (value : Value) : Trace :=
  match operand with
  | .literal _ => .silent
  | .derived rules => Rule.traceSteps rules site value
termination_by structural operand

end

/-- The events of `Rule.runAll`. What a rule hands on is in the document that its path has led to,
or else where it was. -/
def Rule.traceAll : List Rule → Option Place → Value → Trace
  | [], _, _ => .silent
  | rule :: rest, place, cascade => fun s =>
    (rule.trace ⟨place, none⟩ cascade).andThen (rule.run (place.map Place.point) cascade)
      (fun outcome =>
        let handed := s.landing rule.path? (place.map Place.point) <|> place
        Rule.traceAll rest
          (handed.bind fun home => outcome.point.map fun point => ⟨home.document, point⟩)
          outcome.value)
      s

/-- The events of a run. -/
def Evaluator.trace (evaluator : Evaluator) : List Event :=
  Rule.traceAll evaluator.rules none .undefined ⟨evaluator.documents, evaluator.primary⟩

end DocumentRules
