import DocumentRules.Proofs.Evaluation.Current

/-!
# Where nothing comes from

Nothing at all is what a look-up finds in a document where nothing stands. No operator makes it: an
operator that is given a document value gives one back, or fails. What its rules find does not
matter here, since even `=` with nothing on the right has a truth value for an answer. So the only
rules that can turn a value into nothing are those that have a path (`Rule.run_definite`).

This is what makes a value and its form inside a document the same thing for them: `Value.toJson`
changes nothing but nothing.
-/

set_option autoImplicit false

namespace DocumentRules

theorem Value.json_toJson {value : Value} (h : value ≠ .undefined) :
    Value.json value.toJson = value := by
  cases value with
  | undefined => exact absurd rfl h
  | json json => rfl

/-- If the computation gives a value, it is one of a document. -/
def Definite (result : Except Fault Value) : Prop :=
  ∀ value, result = .ok value → value ≠ .undefined

namespace Definite

theorem ok {value : Value} (h : value ≠ .undefined) : Definite (.ok value) := by
  intro other hother
  rwa [← Except.ok.inj hother]

theorem json (value : Json) : Definite (.ok (.json value)) :=
  .ok (by simp)

theorem error (fault : Fault) : Definite (.error fault) := by
  intro value h
  cases h

theorem bind {α : Type} {x : Except Fault α} {f : α → Except Fault Value}
    (h : ∀ a, Definite (f a)) : Definite (x >>= f) := by
  intro value hvalue
  obtain ⟨a, -, ha⟩ := bind_eq_ok.mp hvalue
  exact h a value ha

end Definite

/-! ## Operators -/

theorem finiteResult_definite (operator : String) (x : Float) :
    Definite (finiteResult operator x) := by
  unfold finiteResult
  split
  · exact .json _
  · exact .error _

theorem Value.add_definite (a b : Value) : Definite (a.add b) := by
  unfold Value.add
  dsimp only
  split
  · exact .json _
  · split
    · exact finiteResult_definite _ _
    · exact .error _

theorem CastTarget.apply_definite (target : CastTarget) (value : Value) :
    Definite (target.apply value) := by
  unfold CastTarget.apply
  split
  · exact .json _
  · exact .json _
  · split
    · exact .json _
    · exact .error _
  · split
    · exact .json _
    · exact .error _
  · exact .error _

theorem Standalone.apply_definite (operator : Standalone) (value : Value) :
    Definite (operator.apply value) := by
  unfold Standalone.apply
  cases operator with
  | abs =>
    dsimp only
    split
    · exact finiteResult_definite _ _
    · exact .error _
  | _ => exact .json _

theorem SelfArithmetic.apply_definite (operator : SelfArithmetic) (value : Value) :
    Definite (operator.apply value) := by
  unfold SelfArithmetic.apply
  split
  · exact .error _
  · exact finiteResult_definite _ _

theorem BinaryOperator.apply_definite (operator : BinaryOperator) (left right : Value) :
    Definite (operator.apply left right) := by
  unfold BinaryOperator.apply
  split
  · exact .json _
  · exact .json _
  · exact Value.add_definite left right
  · exact .bind fun x => finiteResult_definite _ x

/-- What a step on an array gives is a value of a document, stopped or not. -/
theorem orStopped_definite {result : Except Fault (Option Value)}
    (h : ∀ value, result = .ok (some value) → value ≠ .undefined) :
    Definite (orStopped result) := by
  cases result with
  | error fault => exact .error fault
  | ok part =>
    cases part with
    | none => exact .json _
    | some part => exact .ok (h part rfl)

theorem slice_definite (first last : Option Json) (value : Value) :
    Definite (slice first last value) := by
  refine orStopped_definite fun part hpart => ?_
  obtain ⟨items, -, hrest⟩ := bind_eq_ok.mp hpart
  obtain ⟨bounds, -, hsliced⟩ := bind_eq_ok.mp hrest
  obtain ⟨_, -, rfl⟩ := Option.map_eq_some_iff.mp (Except.ok.inj hsliced)
  simp [Value.ofItems]

/-- A splice without a position hands its value on. -/
theorem splice_definite (first deleted inserted : Option Json) {value : Value}
    (h : value ≠ .undefined) : Definite (splice first deleted inserted value) := by
  refine orStopped_definite fun part hpart => ?_
  cases first with
  | none =>
    obtain rfl := Option.some.inj (Except.ok.inj hpart)
    exact h
  | some first =>
    obtain ⟨items, -, hrest⟩ := bind_eq_ok.mp hpart
    obtain ⟨start, -, hrest⟩ := bind_eq_ok.mp hrest
    obtain ⟨count, -, hrest⟩ := bind_eq_ok.mp hrest
    cases count with
    | none => cases hrest
    | some count =>
      obtain ⟨added, -, hexchanged⟩ := bind_eq_ok.mp hrest
      obtain ⟨_, -, rfl⟩ := Option.map_eq_some_iff.mp (Except.ok.inj hexchanged)
      simp [Value.ofItems]

/-- The best of some values is one of them. -/
theorem bestOf_definite (beats : Value → Value → Bool) (rest : List Json) :
    ∀ first : Value, first ≠ .undefined → bestOf beats first (rest.map .json) ≠ .undefined := by
  induction rest with
  | nil => exact fun _ h => h
  | cons item rest ih =>
    intro first h
    rw [bestOf, List.map_cons, List.foldl_cons]
    refine ih _ ?_
    split
    · simp
    · exact h

theorem sumFrom_definite (values : List Value) :
    ∀ total : Value, total ≠ .undefined → Definite (sumFrom total values) := by
  induction values with
  | nil => exact fun _ h => .ok h
  | cons value rest ih =>
    intro total _ sum hsum
    obtain ⟨next, hnext, hrest⟩ := bind_eq_ok.mp hsum
    exact ih next (Value.add_definite total value next hnext) sum hrest

theorem Aggregate.apply_definite (operator : Aggregate) (value : Value) :
    Definite (operator.apply value) := by
  refine .bind fun items => ?_
  cases items with
  | nil => exact .error _
  | cons first rest =>
    have hfirst : Value.json first ≠ .undefined := by simp
    unfold Aggregate.ofValues
    cases operator with
    | min | max => exact .ok (bestOf_definite _ rest _ hfirst)
    | sum => exact sumFrom_definite _ _ hfirst
    | mean | median => exact .bind fun _ => finiteResult_definite _ _
    | mode =>
      dsimp only
      split
      · exact .json _
      · exact .json _

/-! ## Rules -/

namespace Run

variable {α β : Type}

theorem Yields.ofExcept {P : α → Prop} {result : Except Fault α}
    (h : ∀ a, result = .ok a → P a) : (Run.ofExcept result).Yields P := by
  intro s a t ha
  exact h a (on_ofExcept_eq_ok.mp ha).1

/-- What the first step yields may be needed for the second. -/
theorem Yields.andThen {P : β → Prop} {Q : α → Prop} {step : Run α} {next : α → Run β}
    (hstep : step.Yields Q) (h : ∀ a, Q a → (next a).Yields P) : (step >>= next).Yields P := by
  intro s b u hb
  obtain ⟨a, t, ha, hnext⟩ := on_bind_eq_ok.mp hb
  exact h a (hstep s a t ha) t b u hnext

/-- An operator that gives a value of a document, at a point. -/
theorem Yields.definite {result : Except Fault Value} (h : Definite result) (point : Option Point) :
    (do return ⟨← Run.ofExcept result, point⟩ : Run Outcome).Yields
      fun o => o.value ≠ .undefined :=
  (Yields.ofExcept h).andThen fun _ hvalue => .pure hvalue

end Run

open Run

/-- An action on a value of a document gives one, whatever the rules inside it find. -/
theorem Action.run_definite (action : Action) {r : Reading} (h : r.value ≠ .undefined) :
    (action.run r).Yields fun o => o.value ≠ .undefined := by
  cases action with
  | standalone operator =>
    simp only [Action.run]
    exact .definite (operator.apply_definite _) _
  | cast target =>
    simp only [Action.run]
    exact .definite (target.apply_definite _) _
  | length =>
    simp only [Action.run]
    exact .bind fun items => .pure (by simp)
  | slice first last =>
    simp only [Action.run]
    exact .definite (slice_definite _ _ _) _
  | splice first deleted items =>
    simp only [Action.run]
    exact .definite (splice_definite _ _ _ h) _
  | sort keys comparison =>
    simp only [Action.run]
    exact .bind fun items => .bind fun found => .bind fun sorted => .pure (by simp [Value.ofItems])
  | inspect operator rules =>
    cases rules with
    | none =>
      simp only [Action.run]
      exact .bind fun items => .fail _ _
    | some rules =>
      simp only [Action.run]
      exact .bind fun items => .bind fun results => .pure (by simp [Value.ofItems])
  | aggregate operator =>
    simp only [Action.run]
    exact .definite (operator.apply_definite _) _
  | contains wanted =>
    cases wanted with
    | none =>
      simp only [Action.run]
      exact .bind fun items => .pure (by simp [Value.ofBool])
    | some wanted =>
      simp only [Action.run]
      exact .bind fun items => .bind fun found => .pure (by simp [Value.ofBool])
  | selfArithmetic operator =>
    simp only [Action.run]
    exact .definite (operator.apply_definite _) _
  | set path operand =>
    cases operand with
    | none =>
      simp only [Action.run]
      exact .bind fun _ => .pure h
    | some operand =>
      simp only [Action.run]
      exact .bind fun value => .bind fun _ => .pure h
  | binary operator operand =>
    simp only [Action.run]
    exact .bind fun right => .definite (operator.apply_definite _ _) _

/-- **A rule without a path makes a value of a document out of one**, if it succeeds. -/
theorem Rule.run_definite {rule : Rule} (hpath : rule.path? = none) (point : Option Point)
    {cascade : Value} (h : cascade ≠ .undefined) :
    (rule.run point cascade).Yields fun o => o.value ≠ .undefined := by
  cases rule with
  | group operator rules =>
    simp only [Rule.run]
    exact .bind fun verdict => .pure (by simp [Value.ofBool])
  | path path => cases hpath
  | action path action =>
    cases hpath
    simp only [Rule.run]
    refine Yields.andThen (Q := fun r => r.value ≠ .undefined) (fun s r t hr => ?_) fun r hr =>
      action.run_definite hr
    rcases takeReading_eq_ok hr with ⟨own, _, hown, -⟩ | ⟨-, -, hreading, -⟩
    · cases hown
    · rw [hreading]
      exact h

/-- So does a sequence of such rules. -/
theorem Rule.runSteps_definite (rules : List Rule) (hpaths : ∀ rule ∈ rules, rule.path? = none)
    (point : Point) : ∀ {cascade : Value}, cascade ≠ .undefined →
      (runSteps rules point cascade).Yields (· ≠ .undefined) := by
  induction rules with
  | nil => exact fun h => .pure h
  | cons rule rest ih =>
    intro cascade h
    rw [List.forall_mem_cons] at hpaths
    simp only [runSteps]
    exact (run_definite hpaths.1 (some point) h).andThen fun o ho => ih hpaths.2 ho

end DocumentRules
