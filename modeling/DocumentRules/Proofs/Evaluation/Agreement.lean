import DocumentRules.Proofs.Evaluation.Operators
import DocumentRules.Proofs.Evaluation.Step

/-!
# Two runs of the same rules

Many laws of evaluation compare two runs of the same rules: from points that differ in how they
read, from sessions that differ in a document no rule can see, or from one session that satisfies
an invariant (which is the run compared with itself). They all need the same induction along the
rules, and they differ only in what the two runs are to agree on.

An `Agreement` names that: which sessions go together, which points, which readings, and which
faults there may be. It is *lawful* for some paths if the three steps that look at the session —
reading at a path, writing at a path, going back to a document — lead from what goes together to
what goes together again, and if a reading hands that on to the points of its elements.
`Rule.run_agrees` is then the induction: two runs of a rule that keeps to those paths fail alike or
succeed with the same value.
-/

set_option autoImplicit false

namespace DocumentRules

/-! ## The paths of a rule -/

mutual

/-- Every path that the rule may read at, at any depth, is one of `reads`, and every path that it
may write at is one of `writes`. -/
def Rule.Within (reads writes : String → Prop) (rule : Rule) : Prop :=
  match rule with
  | .group _ rules => Rule.AllWithin reads writes rules
  | .path path => reads path
  | .action path action => (∀ p, path = some p → reads p) ∧ action.Within reads writes
termination_by structural rule

/-- `Rule.Within` for each of some rules. -/
def Rule.AllWithin (reads writes : String → Prop) (rules : List Rule) : Prop :=
  match rules with
  | [] => True
  | rule :: rest => rule.Within reads writes ∧ Rule.AllWithin reads writes rest
termination_by structural rules

/-- `Rule.Within` for an action. -/
def Action.Within (reads writes : String → Prop) (action : Action) : Prop :=
  match action with
  | .sort keys _ => Rule.AllWithin reads writes keys
  | .inspect _ (some rules) => Rule.AllWithin reads writes rules
  | .contains (some wanted) => wanted.Within reads writes
  | .set path none => writes path
  | .set path (some operand) => writes path ∧ operand.Within reads writes
  | .binary _ operand => operand.Within reads writes
  | .standalone _ | .cast _ | .length | .slice _ _ | .splice _ _ _ | .inspect _ none
  | .aggregate _ | .contains none | .selfArithmetic _ => True
termination_by structural action

/-- `Rule.Within` for an operand. -/
def Operand.Within (reads writes : String → Prop) (operand : Operand) : Prop :=
  match operand with
  | .literal _ => True
  | .derived rules => Rule.AllWithin reads writes rules
termination_by structural operand

end

theorem Rule.allWithin_iff {reads writes : String → Prop} {rules : List Rule} :
    Rule.AllWithin reads writes rules ↔ ∀ rule ∈ rules, rule.Within reads writes := by
  induction rules with
  | nil => simp [Rule.AllWithin]
  | cons rule rest ih => simp [Rule.AllWithin, ih]

mutual

/-- Every rule keeps to the paths that there are. -/
theorem Rule.within_true (rule : Rule) : rule.Within (fun _ => True) (fun _ => True) := by
  match rule with
  | .group _ rules => exact Rule.allWithin_true rules
  | .path _ => trivial
  | .action _ action => exact ⟨fun _ _ => trivial, Action.within_true action⟩
termination_by structural rule

theorem Rule.allWithin_true (rules : List Rule) :
    Rule.AllWithin (fun _ => True) (fun _ => True) rules := by
  match rules with
  | [] => trivial
  | rule :: rest => exact ⟨Rule.within_true rule, Rule.allWithin_true rest⟩
termination_by structural rules

theorem Action.within_true (action : Action) : action.Within (fun _ => True) (fun _ => True) := by
  match action with
  | .sort keys _ => exact Rule.allWithin_true keys
  | .inspect _ (some rules) => exact Rule.allWithin_true rules
  | .contains (some wanted) => exact Operand.within_true wanted
  | .set _ none => trivial
  | .set _ (some operand) => exact ⟨trivial, Operand.within_true operand⟩
  | .binary _ operand => exact Operand.within_true operand
  | .standalone _ | .cast _ | .length | .slice _ _ | .splice _ _ _ | .inspect _ none
  | .aggregate _ | .contains none | .selfArithmetic _ => trivial
termination_by structural action

theorem Operand.within_true (operand : Operand) :
    operand.Within (fun _ => True) (fun _ => True) := by
  match operand with
  | .literal _ => trivial
  | .derived rules => exact Rule.allWithin_true rules
termination_by structural operand

end

/-! ## What two runs agree on -/

/-- What goes together in two runs, and the faults that they may fail with. -/
structure Agreement where
  sessions : Session → Session → Prop
  points : Option Point → Option Point → Prop
  readings : Reading → Reading → Prop
  faults : Fault → Prop := fun _ => True

namespace Agreement

variable {α β γ δ : Type}

/-- Two ends of a step that go together: both succeed, with results that `R` relates, or both fail
for the same reason. -/
inductive Ends (A : Agreement) (R : α → β → Prop) :
    Except Fault α × Session → Except Fault β × Session → Prop where
  | ok {a : α} {b : β} {s t : Session} (result : R a b) (sessions : A.sessions s t) :
      Ends A R (.ok a, s) (.ok b, t)
  | error {fault : Fault} (known : A.faults fault) {s t : Session} (sessions : A.sessions s t) :
      Ends A R (.error fault, s) (.error fault, t)

/-- Two steps that end alike from sessions that go together. -/
def Steps (A : Agreement) (R : α → β → Prop) (x : Run α) (y : Run β) : Prop :=
  ∀ s t, A.sessions s t → A.Ends R (x.on s) (y.on t)

variable {A : Agreement}

theorem Steps.pure {R : α → β → Prop} {a : α} {b : β} (h : R a b) :
    A.Steps R (pure a) (pure b) :=
  fun _ _ hs => .ok h hs

theorem Steps.fail {R : α → β → Prop} {fault : Fault} (h : A.faults fault) :
    A.Steps R (Run.fail fault) (Run.fail fault) :=
  fun _ _ hs => .error h hs

theorem Steps.bind {R : α → β → Prop} {Q : γ → δ → Prop} {x : Run α} {y : Run β}
    {f : α → Run γ} {g : β → Run δ} (hx : A.Steps R x y)
    (hf : ∀ a b, R a b → A.Steps Q (f a) (g b)) : A.Steps Q (x >>= f) (y >>= g) := by
  intro s t hs
  rw [Run.on_bind, Run.on_bind]
  generalize x.on s = p, y.on t = q, hx s t hs = hpq
  cases hpq with
  | ok hR hs' => exact hf _ _ hR _ _ hs'
  | error known hs' => exact .error known hs'

theorem Steps.bind_eq {Q : γ → δ → Prop} {x y : Run α} {f : α → Run γ} {g : α → Run δ}
    (hx : A.Steps Eq x y) (hf : ∀ a, A.Steps Q (f a) (g a)) : A.Steps Q (x >>= f) (y >>= g) :=
  hx.bind fun a _ h => h ▸ hf a

/-! ### Loops -/

/-- Two loops agree if their steps do, element by element. The position of an element in what is
left of the array is its position in the array less the number of steps made. -/
theorem Steps.eachElement {f g : Nat → Json → Run α} {items : List Json} :
    ∀ {i : Nat}, (∀ j element, items[j]? = some element →
        A.Steps Eq (f (i + j) element) (g (i + j) element)) →
      A.Steps Eq (eachElement f i items) (eachElement g i items) := by
  induction items with
  | nil => intro i _; exact .pure rfl
  | cons element rest ih =>
    intro i h
    simp only [DocumentRules.eachElement]
    refine (h 0 element rfl).bind_eq fun result => (ih fun j e hj => ?_).bind_eq fun _ => .pure rfl
    rw [show i + 1 + j = i + (j + 1) by omega]
    exact h (j + 1) e hj

theorem Steps.anyElement {f g : Nat → Json → Run Bool} {items : List Json} :
    ∀ {i : Nat}, (∀ j element, items[j]? = some element →
        A.Steps Eq (f (i + j) element) (g (i + j) element)) →
      A.Steps Eq (anyElement f i items) (anyElement g i items) := by
  induction items with
  | nil => intro i _; exact .pure rfl
  | cons element rest ih =>
    intro i h
    simp only [DocumentRules.anyElement]
    refine (h 0 element rfl).bind_eq fun found => ?_
    cases found with
    | true => exact .pure rfl
    | false =>
      refine ih fun j e hj => ?_
      rw [show i + 1 + j = i + (j + 1) by omega]
      exact h (j + 1) e hj

/-! ### Lawful agreements -/

/-- What has to be shown of an agreement for rules that read at `reads` and write at `writes`. -/
structure Lawful (A : Agreement) (reads writes : String → Prop) : Prop where
  /-- Going back to the documents that were current before keeps sessions together. -/
  restored : ∀ {s t s' t' : Session}, A.sessions s t → A.sessions s' t' →
    A.sessions { s' with current := s.current } { t' with current := t.current }
  /-- Rules that read at one of the paths, or at none, read alike. -/
  reading : ∀ {path : Option String} {p q : Option Point}, (∀ r, path = some r → reads r) →
    A.points p q → ∀ cascade, A.Steps A.readings (takeReading path p cascade)
      (takeReading path q cascade)
  /-- Readings that go together have one value. -/
  value : ∀ {r r' : Reading}, A.readings r r' → r.value = r'.value
  /-- They stand at points that go together, -/
  point : ∀ {r r' : Reading}, A.readings r r' → A.points (some r.point) (some r'.point)
  /-- also when another value is carried there, -/
  carrying : ∀ {r r' : Reading}, A.readings r r' → ∀ value,
    A.points (some (r.point.carrying value)) (some (r'.point.carrying value))
  /-- and so do the points of their elements. -/
  element : ∀ {r r' : Reading} {items : List Json} {i : Nat} {element : Json}, A.readings r r' →
    r.value = .ofItems items → items[i]? = some element →
    A.points (some (r.elementPoint i element)) (some (r'.elementPoint i element))
  /-- Writes at one of the paths are alike. -/
  writing : ∀ {path : String} {p q : Point}, writes path → A.points (some p) (some q) →
    ∀ value, A.Steps Eq (writeAt path p value) (writeAt path q value)
  /-- Operators may fail. -/
  operator : ∀ {fault : Fault}, fault.OfValue → A.faults fault

/-- Outcomes that go together: one value, and points that go together. -/
def Outcomes (A : Agreement) (o o' : Outcome) : Prop :=
  o.value = o'.value ∧ A.points o.point o'.point

variable {reads writes : String → Prop}

theorem Lawful.inSameDocument (law : A.Lawful reads writes) {R : α → β → Prop} {x : Run α}
    {y : Run β} (h : A.Steps R x y) :
    A.Steps R (Run.inSameDocument x) (Run.inSameDocument y) := by
  intro s t hs
  rw [Run.on_inSameDocument, Run.on_inSameDocument]
  generalize x.on s = p, y.on t = q, h s t hs = hpq
  cases hpq with
  | ok hR hs' => exact .ok hR (law.restored hs hs')
  | error known hs' => exact .error known hs'

theorem Lawful.result (law : A.Lawful reads writes) {result : Except Fault α}
    (h : ByValue result) : A.Steps Eq (Run.ofExcept result) (Run.ofExcept result) := by
  intro s t hs
  rw [Run.on_ofExcept, Run.on_ofExcept]
  cases result with
  | ok a => exact .ok rfl hs
  | error fault => exact .error (law.operator (h fault rfl)) hs

theorem Lawful.stay (law : A.Lawful reads writes) {r r' : Reading} (hr : A.readings r r')
    (value : Value) : A.Steps A.Outcomes (pure ⟨value, some r.point⟩)
      (pure ⟨value, some r'.point⟩) :=
  .pure ⟨rfl, law.point hr⟩

theorem Lawful.items (law : A.Lawful reads writes) {r r' : Reading} (hr : A.readings r r')
    (operator : String) {Q : γ → δ → Prop} {f : List Json → Run γ} {g : List Json → Run δ}
    (hf : ∀ items, r.value = .ofItems items → A.Steps Q (f items) (g items)) :
    A.Steps Q (Run.ofExcept (arrayFor operator r.value) >>= f)
      (Run.ofExcept (arrayFor operator r'.value) >>= g) := by
  rw [← law.value hr]
  intro s t hs
  rw [Run.on_bind, Run.on_bind, Run.on_ofExcept, Run.on_ofExcept]
  cases harr : arrayFor operator r.value with
  | error fault => exact .error (law.operator (arrayFor_byValue _ _ fault harr)) hs
  | ok items =>
    refine hf items ?_ s t hs
    rw [arrayFor] at harr
    split at harr
    · next found hfound =>
      rw [← Except.ok.inj harr]
      revert hfound
      cases r.value with
      | undefined => simp [Value.items?]
      | json value => cases value <;> simp [Value.items?, Value.ofItems]
    · exact absurd harr (by simp)

/-- Rules that agree at points that go together agree for every element of an array. -/
theorem Lawful.elements (law : A.Lawful reads writes) {r r' : Reading} (hr : A.readings r r')
    {items : List Json} (hitems : r.value = .ofItems items) {rules : List Rule}
    (hrules : ∀ p q, A.points (some p) (some q) → ∀ value,
      A.Steps Eq (Rule.runSteps rules p value) (Rule.runSteps rules q value)) :
    A.Steps Eq
      (DocumentRules.eachElement (fun i element => Run.inSameDocument
        (Rule.runSteps rules (r.elementPoint i element) (.json element))) 0 items)
      (DocumentRules.eachElement (fun i element => Run.inSameDocument
        (Rule.runSteps rules (r'.elementPoint i element) (.json element))) 0 items) := by
  refine Steps.eachElement fun j element hj => ?_
  rw [Nat.zero_add]
  exact law.inSameDocument (hrules _ _ (law.element hr hitems hj) (.json element))

/-- An operand that agrees at points that go together is found, or not, in both arrays. -/
theorem Lawful.found (law : A.Lawful reads writes) {r r' : Reading} (hr : A.readings r r')
    {items : List Json} (hitems : r.value = .ofItems items) {wanted : Operand}
    (hwanted : ∀ p q, A.points (some p) (some q) → ∀ value,
      A.Steps Eq (wanted.run p value) (wanted.run q value)) :
    A.Steps Eq
      (DocumentRules.anyElement (fun i element => do
        let value ← wanted.run (r.elementPoint i element) (.json element)
        return Value.strictEq (.json element) value) 0 items)
      (DocumentRules.anyElement (fun i element => do
        let value ← wanted.run (r'.elementPoint i element) (.json element)
        return Value.strictEq (.json element) value) 0 items) := by
  refine Steps.anyElement fun j element hj => ?_
  rw [Nat.zero_add]
  exact (hwanted _ _ (law.element hr hitems hj) (.json element)).bind_eq fun value => .pure rfl

end Agreement

/-! ## The induction -/

variable {A : Agreement} {reads writes : String → Prop}

open Agreement

mutual

/-- **Two runs of a rule agree** if the three steps that look at the session do. -/
theorem Rule.run_agrees (law : A.Lawful reads writes) (rule : Rule)
    (h : rule.Within reads writes) {p q : Option Point} (hp : A.points p q) (cascade : Value) :
    A.Steps A.Outcomes (rule.run p cascade) (rule.run q cascade) := by
  match rule with
  | .group operator rules =>
    simp only [Rule.run]
    exact (law.inSameDocument (Rule.runGroup_agrees law rules h operator hp cascade)).bind_eq
      fun verdict => .pure ⟨rfl, hp⟩
  | .path path =>
    simp only [Rule.run]
    refine (law.reading (fun r hr => Option.some.inj hr ▸ h) hp cascade).bind fun r r' hr => ?_
    rw [law.value hr]
    exact law.stay hr _
  | .action path action =>
    simp only [Rule.run]
    exact (law.reading h.1 hp cascade).bind fun r r' hr =>
      Action.run_agrees law action h.2 hr
termination_by structural rule

theorem Rule.runGroup_agrees (law : A.Lawful reads writes) (rules : List Rule)
    (h : Rule.AllWithin reads writes rules) (operator : Connective) {p q : Option Point}
    (hp : A.points p q) (cascade : Value) :
    A.Steps Eq (Rule.runGroup rules operator p cascade)
      (Rule.runGroup rules operator q cascade) := by
  match rules with
  | [] => exact .pure rfl
  | rule :: rest =>
    simp only [Rule.runGroup]
    refine (Rule.run_agrees law rule h.1 hp cascade).bind fun o o' ho => ?_
    rw [ho.1]
    split
    · exact .pure rfl
    · exact Rule.runGroup_agrees law rest h.2 operator hp cascade
termination_by structural rules

theorem Rule.runSteps_agrees (law : A.Lawful reads writes) (rules : List Rule)
    (h : Rule.AllWithin reads writes rules) {p q : Point} (hp : A.points (some p) (some q))
    (cascade : Value) :
    A.Steps Eq (Rule.runSteps rules p cascade) (Rule.runSteps rules q cascade) := by
  match rules with
  | [] => exact .pure rfl
  | rule :: rest =>
    simp only [Rule.runSteps]
    refine (Rule.run_agrees law rule h.1 hp cascade).bind fun o o' ho => ?_
    rw [ho.1]
    exact Rule.runSteps_agrees law rest h.2 hp o'.value
termination_by structural rules

theorem Action.run_agrees (law : A.Lawful reads writes) (action : Action)
    (h : action.Within reads writes) {r r' : Reading} (hr : A.readings r r') :
    A.Steps A.Outcomes (action.run r) (action.run r') := by
  match action with
  | .standalone operator =>
    simp only [Action.run, law.value hr]
    exact (law.result (operator.apply_byValue _)).bind_eq fun value => law.stay hr value
  | .cast target =>
    simp only [Action.run, law.value hr]
    exact (law.result (target.apply_byValue _)).bind_eq fun value => law.stay hr value
  | .length =>
    simp only [Action.run, law.value hr]
    exact (law.result (arrayFor_byValue _ _)).bind_eq fun items => law.stay hr _
  | .slice first last =>
    simp only [Action.run, law.value hr]
    exact (law.result (slice_byValue _ _ _)).bind_eq fun value => law.stay hr value
  | .splice first deleted items =>
    simp only [Action.run, law.value hr]
    exact (law.result (splice_byValue _ _ _ _)).bind_eq fun value => law.stay hr value
  -- The elements of the two readings need not be read alike, but their points go together.
  | .sort keys comparison =>
    simp only [Action.run]
    refine law.items hr _ fun items hitems => ?_
    have hkeys := law.elements hr hitems fun _ _ hp => Rule.runSteps_agrees law keys h hp
    have hsorted := fun found => law.result
      (insertionSort_byValue comparison.comesAfter_byValue (keyed 0 items found))
    exact hkeys.bind_eq fun found => (hsorted found).bind_eq fun sorted => law.stay hr _
  | .inspect operator none =>
    simp only [Action.run]
    exact law.items hr _ fun items _ => .fail (law.operator trivial)
  | .inspect operator (some rules) =>
    simp only [Action.run]
    refine law.items hr _ fun items hitems => ?_
    have hrules := law.elements hr hitems fun _ _ hp => Rule.runSteps_agrees law rules h hp
    exact hrules.bind_eq fun results => .pure ⟨rfl, law.carrying hr _⟩
  | .aggregate operator =>
    simp only [Action.run, law.value hr]
    exact (law.result (operator.apply_byValue _)).bind_eq fun value => law.stay hr value
  | .contains none =>
    simp only [Action.run]
    exact law.items hr _ fun items _ => law.stay hr _
  | .contains (some wanted) =>
    simp only [Action.run]
    refine law.items hr _ fun items hitems => ?_
    have hwanted := law.found hr hitems fun _ _ hp => Operand.run_agrees law wanted h hp
    exact hwanted.bind_eq fun found => law.stay hr _
  | .selfArithmetic operator =>
    simp only [Action.run, law.value hr]
    exact (law.result (operator.apply_byValue _)).bind_eq fun value => law.stay hr value
  | .set path none =>
    simp only [Action.run, law.value hr]
    exact (law.writing h (law.point hr) _).bind_eq fun _ => law.stay hr _
  | .set path (some operand) =>
    simp only [Action.run, law.value hr]
    refine (Operand.run_agrees law operand h.2 (law.point hr) _).bind_eq fun value => ?_
    exact (law.writing h.1 (law.point hr) value).bind_eq fun _ => law.stay hr _
  | .binary operator operand =>
    simp only [Action.run, law.value hr]
    refine (Operand.run_agrees law operand h (law.point hr) _).bind_eq fun right => ?_
    exact (law.result (operator.apply_byValue _ _)).bind_eq fun value => law.stay hr value
termination_by structural action

theorem Operand.run_agrees (law : A.Lawful reads writes) (operand : Operand)
    (h : operand.Within reads writes) {p q : Point} (hp : A.points (some p) (some q))
    (value : Value) : A.Steps Eq (operand.run p value) (operand.run q value) := by
  match operand with
  | .literal literal => exact .pure rfl
  | .derived rules =>
    simp only [Operand.run]
    exact law.inSameDocument (Rule.runSteps_agrees law rules h hp value)
termination_by structural operand

end

/-- Two cascades of the same rules agree. -/
theorem Rule.runAll_agrees (law : A.Lawful reads writes) (rules : List Rule)
    (h : Rule.AllWithin reads writes rules) :
    ∀ {o o' : Outcome}, A.Outcomes o o' →
      A.Steps Eq (Rule.runAll rules o) (Rule.runAll rules o') := by
  induction rules with
  | nil =>
    intro o o' ho
    exact .pure ho.1
  | cons rule rest ih =>
    intro o o' ho
    unfold Rule.runAll
    rw [ho.1]
    exact (Rule.run_agrees law rule h.1 ho.2 o'.value).bind fun _ _ => ih h.2

end DocumentRules
