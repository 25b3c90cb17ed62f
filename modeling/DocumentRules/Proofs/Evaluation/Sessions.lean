import DocumentRules.Proofs.Evaluation.Invariant
import DocumentRules.Proofs.Evaluation.Visibility

/-!
# The sessions that a run goes through

An invariant of runs (`Invariant`) holds where a rule ends. Here it is shown to hold on the way
there, in every session that the run goes through. Those are the sessions before and after the
events of its trace: a rule is called and comes back or fails, a path is followed into its document,
a value is written. Between two events nothing happens but going back to an earlier document, and
the session after that is one of the same list, as the next rule begins in it or the rule around it
ends in it.

What is asked of an invariant is that it lasts through the three ways in which a session changes
(`Session.Lasting`). Then no step ends it, whether the step succeeds or fails (`Run.Preserves`),
since a property of sessions is an invariant of runs that says nothing of points and faults. The
induction goes along the traces: what comes before an event is a step that has succeeded, and the
event begins where that step has ended.
-/

set_option autoImplicit false

namespace DocumentRules

/-! ## Sessions of a run -/

/-- The sessions before and after an event. A call ends where its rule does, also where it fails. -/
def Event.sessions : Event → List Session
  | .called rule site cascade s => [s, ((rule.run site.point cascade).on s).2]
  | .read _ _ place _ s => [s, { s with current := place.document }]
  | .wrote _ _ _ _ before after => [before, after]

namespace Evaluator

/-- The session that a run ends in, whether it succeeds or fails. -/
def finish (evaluator : Evaluator) : Session :=
  ((Rule.runAll evaluator.rules ⟨.undefined, none⟩).on evaluator.start).2

/-- The sessions that a run goes through. -/
def sessions (evaluator : Evaluator) : List Session :=
  evaluator.start :: evaluator.trace.flatMap Event.sessions ++ [evaluator.finish]

/-- The sessions that several runs go through, one after another, and the one that a further run
would start in. -/
def sessionsTimes : Nat → Evaluator → List Session
  | 0, evaluator => [evaluator.start]
  | runs + 1, evaluator => evaluator.sessions ++ sessionsTimes runs evaluator.run.2

end Evaluator

/-! ## Properties that last -/

/-- A property of sessions that following paths, writing and going back do not end. -/
structure Session.Lasting (P : Session → Prop) : Prop where
  moved : ∀ {s : Session} {path : String} {point : Option Point} {place : Place}, P s →
    s.locate path point = .ok place → P { s with current := place.document }
  written : ∀ {s t : Session} {path : String} {point : Point} {value : Json}, P s →
    s.write path point value = .ok t → P t
  restored : ∀ {s t : Session}, P s → P t → P { t with current := s.current }

/-- A property of the sessions alone, as an invariant. -/
def Invariant.ofSessions (P : Session → Prop) : Invariant where
  sessions := P
  points _ := True
  faults _ := True

variable {P : Session → Prop}

theorem Session.Lasting.lawful (law : Session.Lasting P) :
    (Invariant.ofSessions P).Lawful (fun _ => True) (fun _ => True) where
  restored := law.restored
  located _ _ hs hplace := ⟨trivial, law.moved hs hplace⟩
  unlocated _ _ _ _ := trivial
  pointless _ := trivial
  trailless _ _ := trivial
  carrying _ _ := trivial
  descend _ _ _ := trivial
  written _ _ hs hwrite := law.written hs hwrite
  unwritten _ _ _ _ := trivial
  operator _ := trivial

/-- The step ends, if it starts, in a session with the property. -/
def Run.Preserves {α : Type} (P : Session → Prop) (step : Run α) : Prop :=
  ∀ s, P s → P (step.on s).2

namespace Run

variable {α β : Type}

/-- A step that agrees with itself on the property preserves it. -/
theorem Preserves.of_agrees {R : α → α → Prop} {step : Run α}
    (h : (Invariant.ofSessions P).agreement.Steps R step step) : step.Preserves P := by
  intro s hs
  have hends := h s s ⟨rfl, hs⟩
  generalize step.on s = result at hends
  cases hends with
  | ok _ hsessions => exact hsessions.2
  | error _ hsessions => exact hsessions.2

theorem Preserves.ofExcept (result : Except Fault α) : (Run.ofExcept result).Preserves P :=
  fun _ hs => hs

theorem Preserves.bind_pure {step : Run α} (h : step.Preserves P) (f : α → β) :
    (step >>= fun a => Pure.pure (f a)).Preserves P := by
  intro s hs
  have hstep := h s hs
  rw [on_bind]
  generalize step.on s = result at hstep
  obtain ⟨_ | a, t⟩ := result <;> exact hstep

end Run

namespace Session.Lasting

variable (law : Session.Lasting P)
include law

theorem run (rule : Rule) (point : Option Point) (cascade : Value) :
    (rule.run point cascade).Preserves P :=
  .of_agrees (Rule.run_agrees law.lawful.agreement rule rule.within_true ⟨rfl, trivial⟩ cascade)

theorem runSteps (rules : List Rule) (point : Point) (cascade : Value) :
    (Run.inSameDocument (Rule.runSteps rules point cascade)).Preserves P :=
  .of_agrees (law.lawful.agreement.inSameDocument
    (Rule.runSteps_agrees law.lawful.agreement rules (Rule.allWithin_true rules) ⟨rfl, trivial⟩
      cascade))

theorem runOperand (operand : Operand) (point : Point) (value : Value) :
    (operand.run point value).Preserves P :=
  .of_agrees (Operand.run_agrees law.lawful.agreement operand operand.within_true ⟨rfl, trivial⟩
    value)

theorem takeReading (path : Option String) (point : Option Point) (cascade : Value) :
    (DocumentRules.takeReading path point cascade).Preserves P :=
  .of_agrees (law.lawful.agreement.reading (fun _ _ => trivial) ⟨rfl, trivial⟩ cascade)

end Session.Lasting

/-! ## Traces that keep a property -/

/-- From a session with the property the trace goes through none without it. -/
def Trace.Keeps (P : Session → Prop) (events : Trace) : Prop :=
  ∀ s, P s → ∀ event ∈ events s, ∀ t ∈ event.sessions, P t

namespace Trace

variable {α : Type}

theorem forall_mem_pair {s t : Session} (hs : P s) (ht : P t) : ∀ u ∈ [s, t], P u :=
  List.forall_mem_cons.mpr ⟨hs, List.forall_mem_singleton.mpr ht⟩

theorem Keeps.silent : Trace.silent.Keeps P := by
  intro s _ event hevent
  exact absurd hevent List.not_mem_nil

theorem Keeps.andThen {events : Trace} {step : Run α} {next : α → Trace} (h : events.Keeps P)
    (hstep : step.Preserves P) (hnext : ∀ a, (next a).Keeps P) :
    (events.andThen step next).Keeps P := by
  intro s hs event hevent
  rcases List.mem_append.mp hevent with hevent | hevent
  · exact h s hs event hevent
  · have hend := hstep s hs
    split at hevent
    · next a t ha =>
      rw [ha] at hend
      exact hnext a t hend event hevent
    · exact absurd hevent List.not_mem_nil

theorem Keeps.each {events : Nat → Json → Trace} {step : Nat → Json → Run α}
    (h : ∀ i element, (events i element).Keeps P)
    (hstep : ∀ i element, (step i element).Preserves P) (items : List Json) :
    ∀ i, (Trace.each events step i items).Keeps P := by
  induction items with
  | nil => intro i; exact .silent
  | cons element rest ih =>
    intro i
    exact (h i element).andThen (hstep i element) fun _ => ih (i + 1)

theorem Keeps.any {events : Nat → Json → Trace} {step : Nat → Json → Run Bool}
    (h : ∀ i element, (events i element).Keeps P)
    (hstep : ∀ i element, (step i element).Preserves P) (items : List Json) :
    ∀ i, (Trace.any events step i items).Keeps P := by
  induction items with
  | nil => intro i; exact .silent
  | cons element rest ih =>
    intro i
    refine (h i element).andThen (hstep i element) fun found => ?_
    cases found with
    | true => exact .silent
    | false => exact ih (i + 1)

theorem Keeps.reading (law : Session.Lasting P) (path : Option String) (site : Site) :
    (Trace.reading path site).Keeps P := by
  intro s hs event hevent t ht
  unfold Trace.reading at hevent
  split at hevent
  · exact absurd hevent List.not_mem_nil
  · split at hevent
    · next place hplace =>
      rw [List.mem_singleton.mp hevent] at ht
      exact forall_mem_pair hs (law.moved hs hplace) t ht
    · exact absurd hevent List.not_mem_nil

theorem Keeps.writing (law : Session.Lasting P) (path : String) (site : Site) (point : Point)
    (value : Value) : (Trace.writing path site point value).Keeps P := by
  intro s hs event hevent t ht
  unfold Trace.writing at hevent
  split at hevent
  · next place after hplace hwrite =>
    rw [List.mem_singleton.mp hevent] at ht
    exact forall_mem_pair hs (law.written hs hwrite) t ht
  · exact absurd hevent List.not_mem_nil

end Trace

/-! ## The induction along the rules -/

open Trace

mutual

/-- **A property that lasts holds all through a rule.** -/
theorem Rule.trace_keeps (law : Session.Lasting P) (rule : Rule) (site : Site) (cascade : Value) :
    (rule.trace site cascade).Keeps P := by
  intro s hs event hevent t ht
  unfold Rule.trace at hevent
  rcases List.mem_cons.mp hevent with rfl | hevent
  · exact forall_mem_pair hs (law.run rule site.point cascade s hs) t ht
  · match rule with
    | .group operator rules =>
      exact Rule.traceGroup_keeps law rules operator site cascade s hs event hevent t ht
    | .path path => exact Keeps.reading law (some path) site s hs event hevent t ht
    | .action path action =>
      -- The events of the action begin in the session that reading at the path has left.
      have hkeeps := (Keeps.reading law path site).andThen (law.takeReading path site.point cascade)
        fun reading => Action.trace_keeps law action (site.entered (s.landing path site.point))
          reading
      exact hkeeps s hs event hevent t ht
termination_by structural rule

theorem Rule.traceGroup_keeps (law : Session.Lasting P) (rules : List Rule)
    (operator : Connective) (site : Site) (cascade : Value) :
    (Rule.traceGroup rules operator site cascade).Keeps P := by
  match rules with
  | [] => exact Keeps.silent
  | rule :: rest =>
    intro s
    refine ((Rule.trace_keeps law rule site cascade).andThen (law.run rule site.point cascade)
      fun outcome => ?_) s
    split
    · exact Keeps.silent
    · exact Rule.traceGroup_keeps law rest operator _ cascade
termination_by structural rules

theorem Rule.traceSteps_keeps (law : Session.Lasting P) (rules : List Rule) (site : Site)
    (cascade : Value) : (Rule.traceSteps rules site cascade).Keeps P := by
  match rules with
  | [] => exact Keeps.silent
  | rule :: rest =>
    intro s
    exact ((Rule.trace_keeps law rule site cascade).andThen (law.run rule site.point cascade)
      fun outcome => Rule.traceSteps_keeps law rest _ outcome.value) s
termination_by structural rules

theorem Action.trace_keeps (law : Session.Lasting P) (action : Action) (site : Site)
    (r : Reading) : (action.trace site r).Keeps P := by
  match action with
  -- Where an action goes through an array, the array is found first, and that is no event.
  | .sort keys comparison =>
    refine Keeps.silent.andThen (.ofExcept _) fun items => ?_
    exact .each (fun i element => Rule.traceSteps_keeps law keys _ _)
      (fun i element => law.runSteps keys _ _) items 0
  | .inspect operator (some rules) =>
    refine Keeps.silent.andThen (.ofExcept _) fun items => ?_
    exact .each (fun i element => Rule.traceSteps_keeps law rules _ _)
      (fun i element => law.runSteps rules _ _) items 0
  | .contains (some wanted) =>
    refine Keeps.silent.andThen (.ofExcept _) fun items => ?_
    exact .any (fun i element => Operand.trace_keeps law wanted _ _)
      (fun i element => (law.runOperand wanted _ _).bind_pure _) items 0
  | .set path none => exact Keeps.writing law path site r.point r.value
  | .set path (some operand) =>
    exact (Operand.trace_keeps law operand site r.value).andThen (law.runOperand operand _ _)
      fun value => .writing law path site r.point value
  | .binary operator operand => exact Operand.trace_keeps law operand site r.value
  | .standalone _ | .cast _ | .length | .slice _ _ | .splice _ _ _ | .inspect _ none
  | .aggregate _ | .contains none | .selfArithmetic _ => exact Keeps.silent
termination_by structural action

theorem Operand.trace_keeps (law : Session.Lasting P) (operand : Operand) (site : Site)
    (value : Value) : (operand.trace site value).Keeps P := by
  match operand with
  | .literal literal => exact Keeps.silent
  | .derived rules => exact Rule.traceSteps_keeps law rules site value
termination_by structural operand

end

theorem Rule.traceAll_keeps (law : Session.Lasting P) (rules : List Rule) :
    ∀ (place : Option Place) (cascade : Value), (Rule.traceAll rules place cascade).Keeps P := by
  induction rules with
  | nil => intro place cascade; exact Keeps.silent
  | cons rule rest ih =>
    intro place cascade s
    exact ((Rule.trace_keeps law rule _ cascade).andThen (law.run rule _ cascade)
      fun outcome => ih _ outcome.value) s

/-! ## Whole runs -/

namespace Evaluator

variable {evaluator : Evaluator}

theorem holds_of_finish (law : Session.Lasting P) (h : P evaluator.start) :
    P evaluator.finish := by
  have hpoint : (Invariant.ofSessions P).points none := trivial
  exact (law.lawful.runAll (Rule.allWithin_true _) hpoint .undefined h).1

theorem holds_of_sessions (law : Session.Lasting P) (h : P evaluator.start) :
    ∀ s ∈ evaluator.sessions, P s := by
  intro s hs
  rcases List.mem_append.mp hs with hs | hs
  · rcases List.mem_cons.mp hs with rfl | hs
    · exact h
    · obtain ⟨event, hevent, hs⟩ := List.mem_flatMap.mp hs
      exact Rule.traceAll_keeps law evaluator.rules none .undefined evaluator.start h event hevent
        s hs
  · rw [List.mem_singleton.mp hs]
    exact holds_of_finish law h

/-- **A property that lasts holds in all sessions of all runs**, if it does in the first. -/
theorem holds_of_sessionsTimes (law : Session.Lasting P) (runs : Nat) :
    ∀ {evaluator : Evaluator}, P evaluator.start → ∀ s ∈ evaluator.sessionsTimes runs, P s := by
  induction runs with
  | zero =>
    intro evaluator h s hs
    rwa [List.mem_singleton.mp hs]
  | succ runs ih =>
    intro evaluator h s hs
    rcases List.mem_append.mp hs with hs | hs
    · exact holds_of_sessions law h s hs
    · -- The next run starts where this one did, with the documents that it ended with.
      have hnext : P evaluator.run.2.start := law.restored h (holds_of_finish law h)
      exact ih hnext s hs

end Evaluator

end DocumentRules
