import DocumentRules.Proofs.Condition.Negation

/-!
# Flattening

A condition within a condition that has the same connective may be written out in place: its checks
take their turn among those around it. The two forms do not take the same steps. Where the inner
condition is decided early it only answers, and the outer one then looks at the answer; written out,
its checks end the whole at once. And an inner condition without checks has an answer all the same,
where written out it is nothing at all.

Both come to the same because the answer of an empty condition is the one that decides nothing. It
follows that checks are asked one part after the other (`Check.decideAllIn_append`), and the inner
condition is such a part. What is known when the outer condition goes on is also the same, so that
the law holds at every place of a condition, and not only for whole verdicts.
-/

set_option autoImplicit false

namespace DocumentRules

section Scope

variable (cast : Bool) (data : Json) (operator : Connective)

/-- Checks are asked in parts: those behind are asked if those in front have not decided. -/
theorem Check.decideAllIn_append (front behind : List Check) :
    Check.decideAllIn cast (front ++ behind) operator data = (do
      let passed ← Check.decideAllIn cast front operator data
      if passed == operator.deciding then return passed
      else Check.decideAllIn cast behind operator data) := by
  induction front with
  | nil =>
    -- Without checks in front the answer is the other truth value, and that decides nothing.
    have hother : ((!operator.deciding) == operator.deciding) = false := by
      cases operator <;> rfl
    simp only [List.nil_append, Check.decideAllIn, pure_bind, hother, Bool.false_eq_true, if_false]
  | cons check rest ih =>
    simp only [List.cons_append, Check.decideAllIn, bind_assoc]
    refine bind_congr fun passed => ?_
    cases hdecides : passed == operator.deciding with
    | true => simp only [if_true, pure_bind, hdecides]
    | false =>
      simp only [Bool.false_eq_true, if_false]
      exact ih

/-- **A condition of the same connective may be written out** among the checks around it. -/
theorem Check.decideAllIn_flatten (before inner after : List Check) :
    Check.decideAllIn cast (before ++ .nested (.mk operator inner) :: after) operator data =
      Check.decideAllIn cast (before ++ inner ++ after) operator data := by
  have hinner : Check.decideAllIn cast (.nested (.mk operator inner) :: after) operator data =
      Check.decideAllIn cast (inner ++ after) operator data :=
    (Check.decideAllIn_append cast data operator inner after).symm
  rw [List.append_assoc, Check.decideAllIn_append, Check.decideAllIn_append _ _ _ before, hinner]

end Scope

/-- **Conditions may be flattened**, for verdicts and for failures alike: a condition that stands
among the checks of one with the same connective gives way to its own checks, be they many or none.
This holds for any data, with and without casting, at every place of a condition: within others,
under negations, and in what a search asks of the elements. -/
theorem Condition.decide_flatten (cast : Bool) (data : Json) (context : Context)
    (operator : Connective) (before inner after : List Check) :
    (context.fill (mk operator (before ++ .nested (mk operator inner) :: after))).decide cast data =
      (context.fill (mk operator (before ++ inner ++ after))).decide cast data := by
  have hstep : ∀ data, (mk operator (before ++ .nested (mk operator inner) :: after)).decideIn cast
      data = (mk operator (before ++ inner ++ after)).decideIn cast data := fun data =>
    Check.decideAllIn_flatten cast data operator before inner after
  rw [decide, decide, context.decideIn_fill hstep data]

end DocumentRules
