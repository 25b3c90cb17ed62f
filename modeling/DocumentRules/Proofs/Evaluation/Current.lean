import DocumentRules.Proofs.Evaluation.Trace

/-!
# Where a rule ends

Of all that a rule does, only following its own path moves to another document. Whatever is nested
in it comes back: groups and sequences by themselves, and writing never leaves. So after a rule that
succeeds the current document is the one that its path has led to, or else the one from before
(`Rule.current_of_run`), and nothing about the rules inside has to be known.

The point that a rule hands on is its own as well, or its own with something made there in hand
(`Action.run_yields`).
-/

set_option autoImplicit false

namespace DocumentRules

/-! ## The current document after a rule -/

namespace Run

variable {α β : Type}

/-- A step that, if it succeeds, ends in the document it started in. -/
def Stays (step : Run α) : Prop :=
  ∀ s a t, step.on s = (.ok a, t) → t.current = s.current

theorem Stays.pure (a : α) : (Pure.pure a : Run α).Stays := by
  intro s b t h
  rw [(on_pure_eq_ok.mp h).2]

theorem Stays.ofExcept (result : Except Fault α) : (Run.ofExcept result).Stays := by
  intro s a t h
  rw [(on_ofExcept_eq_ok.mp h).2]

theorem Stays.bind {step : Run α} {next : α → Run β} (hstep : step.Stays)
    (hnext : ∀ a, (next a).Stays) : (step >>= next).Stays := by
  intro s b u h
  obtain ⟨a, t, ha, hb⟩ := on_bind_eq_ok.mp h
  rw [hnext a t b u hb, hstep s a t ha]

theorem Stays.inSameDocument (step : Run α) : (Run.inSameDocument step).Stays := by
  intro s a t h
  obtain ⟨u, -, rfl⟩ := on_inSameDocument_eq_ok.mp h
  rfl

end Run

open Run

theorem eachElement_stays {α : Type} {step : Nat → Json → Run α}
    (h : ∀ i element, (step i element).Stays) (items : List Json) :
    ∀ i, (eachElement step i items).Stays := by
  induction items with
  | nil => intro i; exact .pure []
  | cons element rest ih =>
    intro i
    unfold eachElement
    exact (h i element).bind fun result => (ih (i + 1)).bind fun results => .pure _

theorem anyElement_stays {step : Nat → Json → Run Bool}
    (h : ∀ i element, (step i element).Stays) (items : List Json) :
    ∀ i, (anyElement step i items).Stays := by
  induction items with
  | nil => intro i; exact .pure false
  | cons element rest ih =>
    intro i
    unfold anyElement
    refine (h i element).bind fun found => ?_
    cases found with
    | true => exact .pure true
    | false => exact ih (i + 1)

theorem writeAt_stays (path : String) (point : Point) (value : Value) :
    (writeAt path point value).Stays := by
  intro s a t h
  rw [writeAt_on] at h
  cases hwrite : s.write path point value.toJson with
  | error fault => simp [hwrite] at h
  | ok u =>
    simp only [hwrite, Prod.mk.injEq] at h
    obtain ⟨_, _, _, _, _, _, _, _, _, _, hu⟩ := Session.write_eq_ok.mp hwrite
    rw [← h.2, hu]

theorem Operand.run_stays (operand : Operand) (point : Point) (value : Value) :
    (operand.run point value).Stays := by
  cases operand with
  | literal literal => exact .pure _
  | derived rules =>
    simp only [Operand.run]
    exact .inSameDocument _

theorem Action.run_stays (action : Action) (r : Reading) : (action.run r).Stays := by
  cases action with
  | sort keys comparison =>
    simp only [Action.run]
    exact (Stays.ofExcept _).bind fun items =>
      (eachElement_stays (fun i element => .inSameDocument _) items 0).bind fun found =>
        (Stays.ofExcept _).bind fun sorted => .pure _
  | inspect operator rules =>
    cases rules with
    | none =>
      simp only [Action.run]
      exact (Stays.ofExcept _).bind fun items => .ofExcept _
    | some rules =>
      simp only [Action.run]
      exact (Stays.ofExcept _).bind fun items =>
        (eachElement_stays (fun i element => .inSameDocument _) items 0).bind fun results => .pure _
  | contains wanted =>
    cases wanted with
    | none =>
      simp only [Action.run]
      exact (Stays.ofExcept _).bind fun items => .pure _
    | some wanted =>
      simp only [Action.run]
      refine (Stays.ofExcept _).bind fun items => ?_
      refine (anyElement_stays (fun i element => ?_) items 0).bind fun found => .pure _
      exact (wanted.run_stays _ _).bind fun value => .pure _
  | set path operand =>
    cases operand with
    | none =>
      simp only [Action.run]
      exact (writeAt_stays path _ _).bind fun _ => .pure _
    | some operand =>
      simp only [Action.run]
      exact (operand.run_stays _ _).bind fun value =>
        (writeAt_stays path _ _).bind fun _ => .pure _
  | binary operator operand =>
    simp only [Action.run]
    exact (operand.run_stays _ _).bind fun right => (Stays.ofExcept _).bind fun value => .pure _
  | standalone operator | cast target | length | slice first last | splice first deleted items
  | aggregate operator | selfArithmetic operator =>
    simp only [Action.run]
    exact (Stays.ofExcept _).bind fun value => .pure _

theorem Session.landing_of_locate {s : Session} {path : String} {point : Option Point}
    {place : Place} (h : s.locate path point = .ok place) :
    s.landing (some path) point = some place := by
  rw [Session.landing, Option.bind_some, h]
  rfl

/-- After a reading the current document is the one that the path has led to. -/
theorem takeReading_current {path : Option String} {point : Option Point} {cascade : Value}
    {s t : Session} {r : Reading} (h : (takeReading path point cascade).on s = (.ok r, t)) :
    t.current = ((s.landing path point).map Place.document).getD s.current := by
  rcases takeReading_eq_ok h with ⟨own, place, rfl, hplace, -, rfl⟩ | ⟨rfl, -, -, rfl⟩
  · rw [Session.landing_of_locate hplace]
    rfl
  · rfl

/-- **After a rule the current document is the one that its own path has led to**, and the one from
before if it has none. -/
theorem Rule.current_of_run {rule : Rule} {point : Option Point} {cascade : Value} {s t : Session}
    {o : Outcome} (h : (rule.run point cascade).on s = (.ok o, t)) :
    t.current = ((s.landing rule.path? point).map Place.document).getD s.current := by
  cases rule with
  | group operator rules =>
    simp only [Rule.run] at h
    exact (Stays.inSameDocument _).bind (fun verdict => .pure _) s o t h
  | path path =>
    simp only [Rule.run] at h
    obtain ⟨r, u, hr, hu⟩ := on_bind_eq_ok.mp h
    rw [← (on_pure_eq_ok.mp hu).2]
    exact takeReading_current hr
  | action path action =>
    simp only [Rule.run] at h
    obtain ⟨r, u, hr, hu⟩ := on_bind_eq_ok.mp h
    rw [action.run_stays r u o t hu]
    exact takeReading_current hr

/-- A rule with a path succeeds only if the path leads somewhere. -/
theorem Rule.locate_of_run {rule : Rule} {path : String} (hpath : rule.path? = some path)
    {point : Option Point} {cascade : Value} {s t : Session} {o : Outcome}
    (h : (rule.run point cascade).on s = (.ok o, t)) :
    ∃ place, s.locate path point = .ok place := by
  have hreading : ∃ r u, (takeReading (some path) point cascade).on s = (.ok r, u) := by
    cases rule with
    | group operator rules => cases hpath
    | path own =>
      cases hpath
      simp only [Rule.run] at h
      obtain ⟨r, u, hr, -⟩ := on_bind_eq_ok.mp h
      exact ⟨r, u, hr⟩
    | action own action =>
      cases hpath
      simp only [Rule.run] at h
      obtain ⟨r, u, hr, -⟩ := on_bind_eq_ok.mp h
      exact ⟨r, u, hr⟩
  obtain ⟨r, u, hr⟩ := hreading
  rcases takeReading_eq_ok hr with ⟨own, place, hown, hplace, -, -⟩ | ⟨hnone, -, -, -⟩
  · cases hown
    exact ⟨place, hplace⟩
  · cases hnone

/-- **No switch of document gets out of the rule that makes it.** A rule that succeeds leaves the
document current that its own path was located in; a group, or an action without a path, leaves the
one that it was started in. Whatever its operand, its elements, its keys or the rules of its group
have switched to is forgotten. A sequence that succeeds forgets the switches of all its rules. -/
theorem Rule.switches_stay_inside (s t : Session) :
    (∀ (rule : Rule) (point : Option Point) (cascade : Value) (o : Outcome),
      (rule.run point cascade).on s = (.ok o, t) →
        (∀ path, rule.path? = some path →
          ∃ place, s.locate path point = .ok place ∧ t.current = place.document) ∧
        (rule.path? = none → t.current = s.current)) ∧
    (∀ (rules : List Rule) (point : Point) (cascade value : Value),
      (Run.inSameDocument (Rule.runSteps rules point cascade)).on s = (.ok value, t) →
        t.current = s.current) := by
  constructor
  · intro rule point cascade o h
    have hcurrent := Rule.current_of_run h
    constructor
    · intro path hpath
      obtain ⟨place, hplace⟩ := Rule.locate_of_run hpath h
      rw [hpath, Session.landing_of_locate hplace] at hcurrent
      exact ⟨place, hplace, hcurrent⟩
    · intro hpath
      rw [hpath] at hcurrent
      exact hcurrent
  · intro rules point cascade value h
    exact Stays.inSameDocument _ s value t h

/-- Goes to an array of document `B` and, from each of its elements, back to document `A`. -/
def Rule.visiting : Rule :=
  .action (some "B/x") (.inspect .map (some [.path "A/f"]))

/-- Two documents, with one of them the current one. -/
def Session.visited (current : String) : Session where
  documents := ⟨"A", [("$vars", .obj []), ("A", .obj [("$id", .str "A"), ("f", .bool true)]),
    ("B", .obj [("$id", .str "B"), ("x", .arr [.null])])]⟩
  current := current

/-- The rule leaves `B` current, though the last path followed in it has led to `A`; a group around
it leaves `A` current, and so does a sequence. -/
theorem Rule.visiting_stays_inside :
    (∃ o t, (Rule.visiting.run none .undefined).on (.visited "A") = (.ok o, t) ∧
      o.value = .ofItems [.bool true] ∧ t.current = "B") ∧
    (∃ o t, (Rule.run (.group .and [.visiting]) none .undefined).on (.visited "A") = (.ok o, t) ∧
      t.current = "A") ∧
    ∃ value t, (Run.inSameDocument
      (Rule.runSteps [.visiting] .documentRoot .undefined)).on (.visited "A") = (.ok value, t) ∧
        t.current = "A" := by
  have hrun : (Rule.visiting.run none .undefined).on (.visited "A") =
    (.ok ⟨.ofItems [.bool true], some ((Point.documentRoot.child "x").carrying
      (some (.arr [.bool true])))⟩, .visited "B") := rfl
  have hgroup : (Rule.run (.group .and [.visiting]) none .undefined).on (.visited "A") =
    (.ok ⟨.ofBool true, none⟩, .visited "A") := rfl
  have hsteps : (Run.inSameDocument
      (Rule.runSteps [.visiting] .documentRoot .undefined)).on (.visited "A") =
    (.ok (.ofItems [.bool true]), .visited "A") := rfl
  refine ⟨⟨_, _, hrun, rfl, ?_⟩, ⟨_, _, hgroup, ?_⟩, ⟨_, _, hsteps, ?_⟩⟩
  · obtain ⟨hown, -⟩ := (Rule.switches_stay_inside _ _).1 _ _ _ _ hrun
    obtain ⟨place, hplace, hcurrent⟩ := hown "B/x" rfl
    cases hplace
    exact hcurrent
  · obtain ⟨-, hoff⟩ := (Rule.switches_stay_inside _ _).1 _ _ _ _ hgroup
    exact hoff rfl
  · exact (Rule.switches_stay_inside _ _).2 _ _ _ _ hsteps

/-! ## The point after a rule -/

namespace Run

variable {α β : Type}

/-- Every result of the step has the property. -/
def Yields (step : Run α) (P : α → Prop) : Prop :=
  ∀ s a t, step.on s = (.ok a, t) → P a

theorem Yields.pure {P : α → Prop} {a : α} (h : P a) : (Pure.pure a : Run α).Yields P := by
  intro s b t hb
  rwa [← (on_pure_eq_ok.mp hb).1]

theorem Yields.fail (P : α → Prop) (fault : Fault) : (Run.fail fault : Run α).Yields P := by
  intro s a t h
  exact absurd h (by simp)

theorem Yields.bind {P : β → Prop} {step : Run α} {next : α → Run β}
    (h : ∀ a, (next a).Yields P) : (step >>= next).Yields P := by
  intro s b u hb
  obtain ⟨a, t, -, hnext⟩ := on_bind_eq_ok.mp hb
  exact h a t b u hnext

end Run

/-- An action stays at its point; filtering and mapping leave what they made there. -/
theorem Action.run_yields (action : Action) (r : Reading) :
    (action.run r).Yields fun o =>
      o.point = some r.point ∨ ∃ value, o.point = some (r.point.carrying value) := by
  cases action with
  | sort keys comparison =>
    simp only [Action.run]
    exact .bind fun items => .bind fun found => .bind fun sorted => .pure (.inl rfl)
  | inspect operator rules =>
    cases rules with
    | none =>
      simp only [Action.run]
      exact .bind fun items => .fail _ _
    | some rules =>
      simp only [Action.run]
      exact .bind fun items => .bind fun results => .pure (.inr ⟨_, rfl⟩)
  | contains wanted =>
    cases wanted with
    | none =>
      simp only [Action.run]
      exact .bind fun items => .pure (.inl rfl)
    | some wanted =>
      simp only [Action.run]
      exact .bind fun items => .bind fun found => .pure (.inl rfl)
  | set path operand =>
    cases operand with
    | none =>
      simp only [Action.run]
      exact .bind fun _ => .pure (.inl rfl)
    | some operand =>
      simp only [Action.run]
      exact .bind fun value => .bind fun _ => .pure (.inl rfl)
  | binary operator operand =>
    simp only [Action.run]
    exact .bind fun right => .bind fun value => .pure (.inl rfl)
  | standalone operator | cast target | length | slice first last | splice first deleted items
  | aggregate operator | selfArithmetic operator =>
    simp only [Action.run]
    exact .bind fun value => .pure (.inl rfl)

end DocumentRules
