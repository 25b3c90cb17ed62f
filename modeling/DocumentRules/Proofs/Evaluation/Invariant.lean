import DocumentRules.Evaluation.Evaluator
import DocumentRules.Proofs.Evaluation.Agreement

/-!
# What holds all along a run

An invariant speaks of a single run: of the sessions it goes through, of the points that its rules
are handed, and of the faults that it may end with. A run that keeps an invariant is a run that
agrees with itself (`Invariant.agreement`), so the induction along the rules is the one that has
been made for agreements. What is left to show of an invariant is what the steps that look at the
session do, and there only what they find and why they fail (`Invariant.Lawful`).

A run that fails leaves its documents to the next one. An invariant is therefore one of failing runs
as well, and carries over from run to run (`Invariant.Lawful.runTimes`).
-/

set_option autoImplicit false

namespace DocumentRules

/-- What holds of the sessions of a run, of the points handed to its rules and of its faults. -/
structure Invariant where
  sessions : Session → Prop
  points : Option Point → Prop
  faults : Fault → Prop

namespace Invariant

/-- A run beside itself. -/
def agreement (I : Invariant) : Agreement where
  sessions s t := s = t ∧ I.sessions s
  points p q := p = q ∧ I.points p
  readings r r' := r = r' ∧ I.points (some r.point)
  faults := I.faults

/-- What has to be shown of an invariant for rules that read at `reads` and write at `writes`. -/
structure Lawful (I : Invariant) (reads writes : String → Prop) : Prop where
  /-- Going back to the document that was current before. -/
  restored : ∀ {s t : Session}, I.sessions s → I.sessions t →
    I.sessions { t with current := s.current }
  /-- Following a path, -/
  located : ∀ {path : String} {p : Option Point} {s : Session} {place : Place}, reads path →
    I.points p → I.sessions s → s.locate path p = .ok place →
      I.points (some place.point) ∧ I.sessions { s with current := place.document }
  /-- or failing to. -/
  unlocated : ∀ {path : String} {p : Option Point} {s : Session} {fault : Fault}, reads path →
    I.points p → I.sessions s → s.locate path p = .error fault → I.faults fault
  /-- A rule without a path needs a point, -/
  pointless : I.points none → I.faults (.structural .noPoint)
  /-- and the point a trail. -/
  trailless : ∀ {p : Point} {fault : Fault}, I.points (some p) → trailOf (some p) = .error fault →
    I.faults fault
  /-- Carrying another value, -/
  carrying : ∀ {p : Point}, I.points (some p) → ∀ value, I.points (some (p.carrying value))
  /-- or going down to an element. -/
  descend : ∀ {p : Point}, I.points (some p) → ∀ key origin, I.points (some (p.descend key origin))
  /-- Writing at a path, -/
  written : ∀ {path : String} {p : Point} {s t : Session} {value : Json}, writes path →
    I.points (some p) → I.sessions s → s.write path p value = .ok t → I.sessions t
  /-- or failing to. -/
  unwritten : ∀ {path : String} {p : Point} {s : Session} {value : Json} {fault : Fault},
    writes path → I.points (some p) → I.sessions s → s.write path p value = .error fault →
    I.faults fault
  /-- Operators may fail. -/
  operator : ∀ {fault : Fault}, fault.OfValue → I.faults fault

variable {I : Invariant} {reads writes : String → Prop}

theorem Lawful.element (law : I.Lawful reads writes) {r : Reading} (h : I.points (some r.point))
    (i : Nat) (element : Json) : I.points (some (r.elementPoint i element)) := by
  unfold Reading.elementPoint
  split
  · unfold Point.child
    split
    · exact law.descend h _ _
    · exact law.descend h _ _
  · exact law.descend h _ _

/-- A lawful invariant is a lawful agreement of a run with itself. -/
theorem Lawful.agreement (law : I.Lawful reads writes) : I.agreement.Lawful reads writes where
  restored := by
    rintro s _ s' _ ⟨rfl, hs⟩ ⟨rfl, hs'⟩
    exact ⟨rfl, law.restored hs hs'⟩
  reading := by
    rintro path p _ hpath ⟨rfl, hp⟩ cascade s _ ⟨rfl, hs⟩
    cases path with
    | some path =>
      rw [takeReading_path_on]
      cases hplace : s.locate path p with
      | ok place =>
        obtain ⟨hpoint, hsession⟩ := law.located (hpath path rfl) hp hs hplace
        exact .ok ⟨rfl, hpoint⟩ ⟨rfl, hsession⟩
      | error fault => exact .error (law.unlocated (hpath path rfl) hp hs hplace) ⟨rfl, hs⟩
    | none =>
      cases p with
      | none => exact .error (law.pointless hp) ⟨rfl, hs⟩
      | some p =>
        rw [takeReading_none_on]
        cases htrail : trailOf (some p) with
        | ok trail => exact .ok ⟨rfl, hp⟩ ⟨rfl, hs⟩
        | error fault => exact .error (law.trailless hp htrail) ⟨rfl, hs⟩
  value := by
    rintro r _ ⟨rfl, -⟩
    rfl
  point := by
    rintro r _ ⟨rfl, hr⟩
    exact ⟨rfl, hr⟩
  carrying := by
    rintro r _ ⟨rfl, hr⟩ value
    exact ⟨rfl, law.carrying hr value⟩
  element := by
    rintro r _ items i element ⟨rfl, hr⟩ _ _
    exact ⟨rfl, law.element hr i element⟩
  writing := by
    rintro path p _ hpath ⟨hpoint, hp⟩ value s _ ⟨rfl, hs⟩
    cases hpoint
    rw [writeAt_on]
    cases hwrite : s.write path p value.toJson with
    | ok t => exact .ok rfl ⟨rfl, law.written hpath hp hs hwrite⟩
    | error fault => exact .error (law.unwritten hpath hp hs hwrite) ⟨rfl, hs⟩
  operator := law.operator

/-- A cascade keeps a lawful invariant, whether it succeeds or fails. -/
theorem Lawful.runAll (law : I.Lawful reads writes) {rules : List Rule}
    (h : Rule.AllWithin reads writes rules) {point : Option Point} (hpoint : I.points point)
    (cascade : Value) {s : Session} (hs : I.sessions s) :
    I.sessions ((Rule.runAll rules ⟨cascade, point⟩).on s).2 ∧
      ∀ fault, ((Rule.runAll rules ⟨cascade, point⟩).on s).1 = .error fault → I.faults fault := by
  have houtcome : I.agreement.Outcomes ⟨cascade, point⟩ ⟨cascade, point⟩ := ⟨rfl, rfl, hpoint⟩
  have hends := Rule.runAll_agrees law.agreement rules h houtcome s s ⟨rfl, hs⟩
  generalize (Rule.runAll rules ⟨cascade, point⟩).on s = result at hends ⊢
  cases hends with
  | ok _ hsessions =>
    refine ⟨hsessions.2, fun fault hfault => ?_⟩
    cases hfault
  | error known hsessions =>
    refine ⟨hsessions.2, fun fault hfault => ?_⟩
    cases hfault
    exact known

end Invariant

/-! ## Run after run -/

namespace Evaluator

/-- The session that a run starts in. -/
def start (evaluator : Evaluator) : Session :=
  ⟨evaluator.documents, evaluator.primary⟩

/-- What one run hands on to the next holds of all runs. -/
theorem forall_runTimes {P : Evaluator → Prop} {Q : Except Fault Value × Evaluator → Prop}
    (hrun : ∀ evaluator, P evaluator → Q evaluator.run ∧ P evaluator.run.2) (runs : Nat) :
    ∀ evaluator, P evaluator → ∀ step ∈ evaluator.runTimes runs, Q step := by
  induction runs with
  | zero =>
    intro evaluator _ step hstep
    exact absurd hstep List.not_mem_nil
  | succ runs ih =>
    intro evaluator h step hstep
    rcases List.mem_cons.mp hstep with rfl | hstep
    · exact (hrun evaluator h).1
    · exact ih _ (hrun evaluator h).2 step hstep

end Evaluator

/-- **A lawful invariant is kept over all runs of an evaluator.** The rules may be started from any
point that makes no difference to them. -/
theorem Invariant.Lawful.runTimes {I : Invariant} {reads writes : String → Prop}
    (law : I.Lawful reads writes) {evaluator : Evaluator}
    (h : Rule.AllWithin reads writes evaluator.rules) {point : Option Point}
    (hpoint : I.points point)
    (hstart : Rule.runAll evaluator.rules ⟨.undefined, none⟩ =
      Rule.runAll evaluator.rules ⟨.undefined, point⟩)
    (hsession : I.sessions evaluator.start) (runs : Nat) :
    ∀ step ∈ evaluator.runTimes runs,
      I.sessions step.2.start ∧ ∀ fault, step.1 = .error fault → I.faults fault := by
  refine Evaluator.forall_runTimes
    (P := fun e => e.rules = evaluator.rules ∧ I.sessions e.start) ?_ runs evaluator ⟨rfl, hsession⟩
  rintro e ⟨hrules, hs⟩
  have hkept := law.runAll h hpoint .undefined hs
  rw [← hstart, ← hrules] at hkept
  -- The next run starts with the documents that this one left, in the document it started in.
  have hnext : I.sessions e.run.2.start := law.restored hs hkept.1
  exact ⟨⟨hnext, hkept.2⟩, hrules, hnext⟩

end DocumentRules
