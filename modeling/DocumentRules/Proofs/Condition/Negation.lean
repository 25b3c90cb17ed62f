import DocumentRules.Condition.Verdict

/-!
# Negation

A negation may be moved into a condition: negating what `and` joins is joining the negations by
`or`, and the other way round. Of truth values that is nothing new. A decision is more than that. It
stops at the first check that decides it, so that a search further on which would fail is not made,
and what it has looked up on the way stays known to the checks behind it. The two forms agree in all
of this, because a check decides one of them exactly if its negation decides the other.

So the law is stated first as an equation of steps within a scope: what they answer, where they
fail and what is known when they are done (`Check.decideIn_not_nested`). Steps that are equal may be
exchanged wherever they are made. `Condition.Context` is any place in a condition, under negations,
within other conditions and in the condition of a search, and `Condition.de_morgan` is the law for
whole decisions, at all of these places.
-/

set_option autoImplicit false

namespace DocumentRules

/-- The other connective. -/
def Connective.dual : Connective → Connective
  | .and => .or
  | .or => .and

/-! ## Within a scope -/

section Scope

variable (cast : Bool) (data : Json)

theorem Check.decideIn_not (check : Check) :
    (Check.not check).decideIn cast data = Bool.not <$> check.decideIn cast data := by
  simp only [Check.decideIn, map_eq_pure_bind]

/-- Asking the negations under the other connective is asking the checks, and negating. -/
theorem Check.decideAllIn_map_not (operator : Connective) (checks : List Check) :
    Check.decideAllIn cast (checks.map .not) operator.dual data =
      Bool.not <$> Check.decideAllIn cast checks operator data := by
  induction checks with
  | nil => cases operator <;> rfl
  | cons check rest ih =>
    simp only [List.map_cons, Check.decideAllIn, Check.decideIn_not, map_eq_pure_bind, bind_assoc,
      pure_bind] at ih ⊢
    refine bind_congr fun passed => ?_
    -- A check decides the one connective exactly if its negation decides the other.
    cases operator <;> cases passed <;> simp [Connective.dual, Connective.deciding, ← ih]

/-- **A negated condition is the other connective of the negations.** -/
theorem Check.decideIn_not_nested (operator : Connective) (checks : List Check) :
    (Check.not (.nested (.mk operator checks))).decideIn cast data =
      (Check.nested (.mk operator.dual (checks.map .not))).decideIn cast data := by
  rw [Check.decideIn_not]
  exact (Check.decideAllIn_map_not cast data operator checks).symm

/-- **A negation undoes another.** -/
theorem Check.decideIn_not_not (check : Check) :
    (Check.not (.not check)).decideIn cast data = check.decideIn cast data := by
  simp only [Check.decideIn_not, Functor.map_map, Bool.not_not, id_map']

/-- A single check decides for itself, whichever connective it is under. -/
theorem Check.decideAllIn_singleton (operator : Connective) (check : Check) :
    Check.decideAllIn cast [check] operator data = check.decideIn cast data := by
  have hanswer : ∀ passed : Bool, (if passed == operator.deciding then pure passed
      else pure !operator.deciding : Scoped Bool) = pure passed := by
    intro passed
    cases operator <;> cases passed <;> rfl
  simp only [Check.decideAllIn, hanswer, bind_pure]

/-- Checks that take the same step may be exchanged among others. -/
theorem Check.decideAllIn_exchange {check check' : Check}
    (h : check.decideIn cast data = check'.decideIn cast data) (operator : Connective)
    (before after : List Check) :
    Check.decideAllIn cast (before ++ check :: after) operator data =
      Check.decideAllIn cast (before ++ check' :: after) operator data := by
  induction before with
  | nil => simp only [List.nil_append, Check.decideAllIn, h]
  | cons first rest ih => simp only [List.cons_append, Check.decideAllIn, ih]

end Scope

/-! ## Anywhere in a condition -/

mutual

/-- A condition with a place for a condition in it. -/
inductive Condition.Context where
  /-- The place is the whole. -/
  | whole
  /-- The place is in one of the checks. -/
  | among (operator : Connective) (before : List Check) (check : Check.Context) (after : List Check)

/-- A check with a place for a condition in it. -/
inductive Check.Context where
  | nested (condition : Condition.Context)
  | contains (path : String) (condition : Condition.Context)
  | not (target : Check.Context)

end

mutual

/-- The condition with another one in the place. -/
def Condition.Context.fill (context : Condition.Context) (inner : Condition) : Condition :=
  match context with
  | .whole => inner
  | .among operator before check after => .mk operator (before ++ check.fill inner :: after)
termination_by structural context

/-- The check with a condition in the place. -/
def Check.Context.fill (context : Check.Context) (inner : Condition) : Check :=
  match context with
  | .nested condition => .nested (condition.fill inner)
  | .contains path condition => .contains path (condition.fill inner)
  | .not target => .not (target.fill inner)
termination_by structural context

end

section Exchange

variable {cast : Bool} {inner inner' : Condition}

mutual

/-- **Conditions that take the same step about any data may be exchanged at any place.** -/
theorem Condition.Context.decideIn_fill
    (h : ∀ data, inner.decideIn cast data = inner'.decideIn cast data)
    (context : Condition.Context) (data : Json) :
    (context.fill inner).decideIn cast data = (context.fill inner').decideIn cast data := by
  match context with
  | .whole => exact h data
  | .among operator before check after =>
    exact Check.decideAllIn_exchange cast data (check.decideIn_fill h data) operator before after
termination_by structural context

theorem Check.Context.decideIn_fill
    (h : ∀ data, inner.decideIn cast data = inner'.decideIn cast data)
    (context : Check.Context) (data : Json) :
    (context.fill inner).decideIn cast data = (context.fill inner').decideIn cast data := by
  match context with
  | .nested condition => exact condition.decideIn_fill h data
  | .contains path condition =>
    -- The elements are other data than the whole.
    simp only [Check.Context.fill, Check.decideIn, condition.decideIn_fill h]
  | .not target =>
    simp only [Check.Context.fill, Check.decideIn, target.decideIn_fill h]
termination_by structural context

end

end Exchange

/-! ## Verdicts -/

theorem Condition.decide_singleton (cast : Bool) (data : Json) (operator : Connective)
    (check : Check) : (mk operator [check]).decide cast data =
      Prod.fst <$> (check.decideIn cast data).run [] := by
  rw [← Check.decideAllIn_singleton cast data operator check]
  rfl

/-- A check beside others, at a place of a condition, gives way to one that takes the same step. -/
theorem Condition.decide_exchange {cast : Bool} {check check' : Check}
    (h : ∀ data, check.decideIn cast data = check'.decideIn cast data) (context : Context)
    (operator : Connective) (before after : List Check) (data : Json) :
    (context.fill (mk operator (before ++ check :: after))).decide cast data =
      (context.fill (mk operator (before ++ check' :: after))).decide cast data := by
  have hinner : ∀ data, (mk operator (before ++ check :: after)).decideIn cast data =
      (mk operator (before ++ check' :: after)).decideIn cast data := fun data =>
    Check.decideAllIn_exchange cast data (h data) operator before after
  rw [decide, decide, context.decideIn_fill hinner data]

/-- **Negation moves into a condition**, for verdicts and for failures alike. A negated condition is
decided the other way round, and as its negated checks are under the other connective; where the one
fails, the other fails with the same fault. A check that is negated twice is decided as it is. All
this holds for any data, with and without casting, also at any place of a condition and beside any
other checks. -/
theorem Condition.de_morgan (cast : Bool) (data : Json) :
    (∀ outer operator checks,
      (mk outer [.not (.nested (mk operator checks))]).decide cast data =
          Bool.not <$> (mk operator checks).decide cast data ∧
        (mk outer [.not (.nested (mk operator checks))]).decide cast data =
          (mk operator.dual (checks.map .not)).decide cast data) ∧
    (∀ outer check, (mk outer [.not (.not check)]).decide cast data =
      (mk outer [check]).decide cast data) ∧
    ∀ (context : Context) outer before after,
      (∀ operator checks,
        (context.fill (mk outer (before ++ .not (.nested (mk operator checks)) :: after))).decide
            cast data =
          (context.fill (mk outer (before ++
            .nested (mk operator.dual (checks.map .not)) :: after))).decide cast data) ∧
      ∀ check, (context.fill (mk outer (before ++ .not (.not check) :: after))).decide cast data =
        (context.fill (mk outer (before ++ check :: after))).decide cast data := by
  refine ⟨fun outer operator checks => ⟨?_, ?_⟩, fun outer check => ?_,
    fun context outer before after => ⟨fun operator checks => ?_, fun check => ?_⟩⟩
  · rw [decide_singleton, Check.decideIn_not, StateT.run_map, Functor.map_map, decide,
      Functor.map_map]
    rfl
  · rw [decide_singleton, Check.decideIn_not_nested]
    rfl
  · rw [decide_singleton, decide_singleton, Check.decideIn_not_not]
  · exact decide_exchange (fun data => Check.decideIn_not_nested cast data operator checks)
      context outer before after data
  · exact decide_exchange (fun data => Check.decideIn_not_not cast data check)
      context outer before after data

/-- A search that fails stops both forms, if no check before it decides them. -/
example :
    let checks : List Check := [.compare "a" .eq (.ofBool false), .contains "x" (.mk .and [])]
    (Condition.mk .and [.not (.nested (.mk .or checks))]).decide false (.obj [("a", .bool true)]) =
        .error (.searchTarget "x") ∧
      (Condition.mk .and (checks.map .not)).decide false (.obj [("a", .bool true)]) =
        .error (.searchTarget "x") := ⟨rfl, rfl⟩

end DocumentRules
