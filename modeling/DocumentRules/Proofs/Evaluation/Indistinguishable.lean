import DocumentRules.Proofs.Evaluation.Invariant
import Mathlib.Data.List.Forall2

/-!
# Sessions that rules cannot tell apart

Two sessions may differ in what no rule of a list ever asks for: in a document that none of the
paths leads to, in which of the documents was given first. Then the rules do the same in both, from
the same points and with the same values. Such a relation of sessions is an agreement of runs in
which points and readings are equal (`Agreement.ofSessions`), and of the three steps that look at
the session it has to be shown what they find there (`Session.Indistinguishable`).

A relation that going back to a document keeps carries over to the next run, since that begins in
the documents that this one has left (`Session.Indistinguishable.runTimes`).
-/

set_option autoImplicit false

namespace DocumentRules

/-- Sessions that go together are not told apart by rules that read at `reads` and write at
`writes`, and what such rules do to them goes together again. -/
structure Session.Indistinguishable (R : Session → Session → Prop) (reads writes : String → Prop) :
    Prop where
  /-- Going back to the documents that were current before. -/
  restored : ∀ {s t s' t' : Session}, R s t → R s' t' →
    R { s' with current := s.current } { t' with current := t.current }
  /-- A path leads to one place in both, or is refused alike, -/
  located : ∀ {path : String} {s t : Session}, reads path → R s t → ∀ point : Option Point,
    s.locate path point = t.locate path point
  /-- the same stands there, and its document becomes current. -/
  moved : ∀ {path : String} {s t : Session} {point : Option Point} {place : Place}, reads path →
    R s t → s.locate path point = .ok place → s.valueAt place = t.valueAt place ∧
      R { s with current := place.document } { t with current := place.document }
  /-- A write goes through in both, or is refused alike. -/
  written : ∀ {path : String} {s t : Session}, writes path → R s t →
    ∀ (point : Point) (value : Json), Alike R (s.write path point value) (t.write path point value)

/-- Two runs from the same points in sessions that go together. -/
def Agreement.ofSessions (R : Session → Session → Prop) : Agreement where
  sessions := R
  points := Eq
  readings := Eq

namespace Session.Indistinguishable

variable {R : Session → Session → Prop} {reads writes : String → Prop}

theorem lawful (law : Session.Indistinguishable R reads writes) :
    (Agreement.ofSessions R).Lawful reads writes where
  restored := law.restored
  reading := by
    rintro path p _ hpath rfl cascade s t h
    cases path with
    | some path =>
      have hreads := hpath path rfl
      rw [takeReading_path_on, takeReading_path_on, ← law.located hreads h]
      cases hplace : s.locate path p with
      | error fault => exact .error trivial h
      | ok place =>
        obtain ⟨hvalue, hsessions⟩ := law.moved hreads h hplace
        dsimp only
        rw [hvalue]
        exact .ok rfl hsessions
    | none =>
      cases p with
      | none => exact .error trivial h
      | some p =>
        rw [takeReading_none_on, takeReading_none_on]
        cases trailOf (some p) with
        | error fault => exact .error trivial h
        | ok trail => exact .ok rfl h
  value := by
    rintro r _ rfl
    rfl
  point := by
    rintro r _ rfl
    rfl
  carrying := by
    rintro r _ rfl value
    rfl
  element := by
    rintro r _ items i element rfl _ _
    rfl
  writing := by
    rintro path p _ hpath hpoint value s t h
    cases hpoint
    rw [writeAt_on, writeAt_on]
    generalize s.write path p value.toJson = written, t.write path p value.toJson = written',
      law.written hpath h p value.toJson = halike
    cases halike with
    | ok sessions => exact .ok rfl sessions
    | error fault => exact .error trivial h
  operator _ := trivial

/-- A run ends alike from sessions that go together, and so may the next one begin. -/
theorem run (law : Session.Indistinguishable R reads writes) {e e' : Evaluator}
    (hrules : e'.rules = e.rules) (hpaths : Rule.AllWithin reads writes e.rules)
    (hstart : R e.start e'.start) :
    e.run.1 = e'.run.1 ∧ R e.run.2.start e'.run.2.start := by
  have hempty : (Agreement.ofSessions R).Outcomes ⟨.undefined, none⟩ ⟨.undefined, none⟩ :=
    ⟨rfl, rfl⟩
  have hends := Rule.runAll_agrees law.lawful e.rules hpaths hempty e.start e'.start hstart
  -- The sessions that the runs end in, back in the documents that they began in.
  show ((Rule.runAll e.rules ⟨.undefined, none⟩).on e.start).1 =
      ((Rule.runAll e'.rules ⟨.undefined, none⟩).on e'.start).1 ∧
    R { ((Rule.runAll e.rules ⟨.undefined, none⟩).on e.start).2 with current := e.start.current }
      { ((Rule.runAll e'.rules ⟨.undefined, none⟩).on e'.start).2 with
        current := e'.start.current }
  rw [hrules]
  generalize (Rule.runAll e.rules ⟨.undefined, none⟩).on e.start = before,
    (Rule.runAll e.rules ⟨.undefined, none⟩).on e'.start = after at hends
  cases hends with
  | ok hresult hsessions => exact ⟨congrArg Except.ok hresult, law.restored hstart hsessions⟩
  | error _ hsessions => exact ⟨rfl, law.restored hstart hsessions⟩

end Session.Indistinguishable

namespace Evaluator

/-- What one run hands on to the next relates all runs of one evaluator to those of another. -/
theorem forall₂_runTimes {P : Evaluator → Evaluator → Prop}
    {Q : Except Fault Value × Evaluator → Except Fault Value × Evaluator → Prop}
    (hrun : ∀ e e', P e e' → Q e.run e'.run ∧ P e.run.2 e'.run.2) (runs : Nat) :
    ∀ e e', P e e' → List.Forall₂ Q (e.runTimes runs) (e'.runTimes runs) := by
  induction runs with
  | zero =>
    intro e e' _
    exact .nil
  | succ runs ih =>
    intro e e' h
    obtain ⟨hstep, hnext⟩ := hrun e e' h
    exact .cons hstep (ih _ _ hnext)

end Evaluator

/-- **Evaluators whose sessions cannot be told apart give the same in every run**, and leave
sessions that cannot be told apart. -/
theorem Session.Indistinguishable.runTimes {R : Session → Session → Prop}
    {reads writes : String → Prop} (law : Session.Indistinguishable R reads writes)
    {e e' : Evaluator} (hrules : e'.rules = e.rules)
    (hpaths : Rule.AllWithin reads writes e.rules) (hstart : R e.start e'.start) (runs : Nat) :
    List.Forall₂ (fun step step' => step.1 = step'.1 ∧ R step.2.start step'.2.start)
      (e.runTimes runs) (e'.runTimes runs) := by
  refine Evaluator.forall₂_runTimes (P := fun d d' => d'.rules = d.rules ∧
    Rule.AllWithin reads writes d.rules ∧ R d.start d'.start) ?_ runs e e' ⟨hrules, hpaths, hstart⟩
  rintro d d' ⟨hrules, hpaths, hstart⟩
  have hrun := law.run hrules hpaths hstart
  exact ⟨hrun, hrules, hpaths, hrun.2⟩

end DocumentRules
