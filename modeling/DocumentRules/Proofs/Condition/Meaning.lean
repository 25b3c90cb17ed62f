import DocumentRules.Condition.Meaning
import DocumentRules.Proofs.Result

/-!
# Verdicts are meanings

A verdict is reached through what is known, a meaning is not, and the two are the same
(`Condition.decide_eq_meaning`). What is known changes from check to check, so the induction along
the condition cannot speak of one table. It speaks of all that are *right*, in which every path has
the value that it leads to in the data of the scope: from any of them a check gives the answer that
it means, or fails as it does, and leaves one that is right again. The elements of a searched array
begin with nothing known, which is right about any data. A table that was carried over from the
scope around them would not be.

The other half is what a meaning is, said without the loops that find it. A condition asks its
checks in order and a search asks its elements. In both, the first answer that is not the one to
pass over is the answer of the whole, and a failure is such an answer (`Asked`).
-/

set_option autoImplicit false

namespace DocumentRules

/-! ## What is known -/

/-- Every value that is known is the one that its path leads to. -/
def Known.Right (data : Json) (known : Known) : Prop :=
  ∀ path value, known.lookup path = some value → value = data.dotted path

theorem Known.right_nil (data : Json) : Known.Right data [] := by
  intro path value h
  cases h

theorem Known.Right.cons {data : Json} {known : Known} (h : Known.Right data known)
    (path : String) : Known.Right data ((path, data.dotted path) :: known) := by
  intro other value hvalue
  rw [List.lookup_cons] at hvalue
  cases hother : other == path with
  | true =>
    simp only [hother, Option.some.injEq] at hvalue
    rw [beq_iff_eq.mp hother, hvalue]
  | false =>
    simp only [hother] at hvalue
    exact h other value hvalue

/-! ## Steps within a scope -/

namespace Scoped

variable {α β : Type} {data : Json}

/-- Whatever is known and right, the step has this result and leaves what is right. -/
def Means (data : Json) (step : Scoped α) (result : Except Fault α) : Prop :=
  ∀ known, Known.Right data known →
    Alike (fun found a => found.1 = a ∧ Known.Right data found.2) (step.run known) result

theorem Means.pure (a : α) : Means data (Pure.pure a) (.ok a) :=
  fun _ h => .ok ⟨rfl, h⟩

theorem Means.bind {step : Scoped α} {result : Except Fault α} {next : α → Scoped β}
    {after : α → Except Fault β} (h : Means data step result)
    (hnext : ∀ a, Means data (next a) (after a)) :
    Means data (step >>= next) (result >>= after) := by
  intro known hknown
  rw [StateT.run_bind]
  refine (h known hknown).bind ?_
  rintro ⟨a, known'⟩ _ ⟨rfl, hright⟩
  exact hnext a known' hright

/-- A computation that does not look at what is known. -/
theorem Means.lift (result : Except Fault α) :
    Means data (liftM result : Scoped α) result := by
  intro known h
  cases result with
  | ok a => exact .ok ⟨rfl, h⟩
  | error fault => exact .error fault

/-- Looking a path up gives what it leads to, known or not. -/
theorem lookUp_means (path : String) : Means data (lookUp data path) (.ok (data.dotted path)) := by
  intro known h
  show Alike _ (lookUp data path known) _
  unfold lookUp
  cases hknown : known.lookup path with
  | some value => exact .ok ⟨h path value hknown, h⟩
  | none => exact .ok ⟨rfl, h.cons path⟩

/-- With nothing known at first, the result is the answer. -/
theorem Means.answer {step : Scoped α} {result : Except Fault α} (h : Means data step result) :
    Prod.fst <$> step.run [] = result := by
  have hanswer := h [] (Known.right_nil data)
  generalize step.run [] = found at hanswer
  cases hanswer with
  | ok hfound =>
    rw [← hfound.1]
    rfl
  | error fault => rfl

end Scoped

/-! ## The induction along a condition -/

open Scoped

mutual

theorem Condition.decideIn_means (cast : Bool) (condition : Condition) (data : Json) :
    Means data (condition.decideIn cast data) (condition.meaning cast data) := by
  match condition with
  | .mk operator checks => exact Check.decideAllIn_means cast checks operator data
termination_by structural condition

/-- **A check means what it is decided to be**, whatever has been looked up before. -/
theorem Check.decideIn_means (cast : Bool) (check : Check) (data : Json) :
    Means data (check.decideIn cast data) (check.meaning cast data) := by
  match check with
  | .nested condition => exact Condition.decideIn_means cast condition data
  | .compare path operator expected =>
    exact (lookUp_means path).bind fun actual => .pure (operator.holdsCast cast actual expected)
  | .contains path condition =>
    -- The element is the data of a scope of its own.
    have helement : (fun item => Prod.fst <$> (condition.decideIn cast item).run []) =
        fun item => condition.meaning cast item :=
      funext fun item => (Condition.decideIn_means cast condition item).answer
    have hsearch : ∀ target, Means data
        (do anyItem (fun item => condition.meaning cast item) (← searchedItems path target))
        (searchedItems path target >>= anyItem fun item => condition.meaning cast item) :=
      fun target => (Means.lift (searchedItems path target)).bind fun items => .lift _
    simp only [Check.decideIn, Check.meaning, helement]
    exact (lookUp_means path).bind hsearch
  | .not target =>
    exact (Check.decideIn_means cast target data).bind fun answer => .pure (!answer)
termination_by structural check

theorem Check.decideAllIn_means (cast : Bool) (checks : List Check) (operator : Connective)
    (data : Json) :
    Means data (Check.decideAllIn cast checks operator data)
      (Check.meaningAll cast checks operator data) := by
  match checks with
  | [] => exact .pure (!operator.deciding)
  | check :: rest =>
    simp only [Check.decideAllIn, Check.meaningAll]
    refine (Check.decideIn_means cast check data).bind fun passed => ?_
    cases hpassed : passed == operator.deciding with
    | true =>
      rw [beq_iff_eq.mp hpassed]
      exact .pure operator.deciding
    | false => exact Check.decideAllIn_means cast rest operator data
termination_by structural checks

end

/-! ## Asking in order -/

/-- Answers are asked for in order, and those that are `passing` are passed over. The first other
one is the answer of all, whether it is a truth value or a failure; without one, `passing` is. -/
inductive Asked (passing : Bool) : List (Except Fault Bool) → Except Fault Bool → Prop where
  | nobody : Asked passing [] (.ok passing)
  | stopped {answer : Except Fault Bool} (rest : List (Except Fault Bool))
      (other : answer ≠ .ok passing) : Asked passing (answer :: rest) answer
  | passed {rest : List (Except Fault Bool)} {answer : Except Fault Bool}
      (next : Asked passing rest answer) : Asked passing (.ok passing :: rest) answer

/-- A loop that ends at the first answer other than `passing` asks in order. -/
theorem Asked.cons {passing : Bool} {first : Except Fault Bool} {rest : List (Except Fault Bool)}
    {next : Except Fault Bool} {after : Bool → Except Fault Bool}
    (hrest : Asked passing rest next) (hother : after (!passing) = .ok (!passing))
    (hpassing : after passing = next) : Asked passing (first :: rest) (first >>= after) := by
  cases first with
  | error fault => exact .stopped rest (by simp)
  | ok answer =>
    by_cases hanswer : answer = passing
    · subst hanswer
      show Asked answer _ (after answer)
      rw [hpassing]
      exact .passed hrest
    · have hflip : answer = !passing := Bool.eq_not.mpr hanswer
      subst hflip
      show Asked passing _ (after (!passing))
      rw [hother]
      exact .stopped rest (by simp)

theorem anyItem_asked (passes : Json → Except Fault Bool) (items : List Json) :
    Asked false (items.map passes) (anyItem passes items) := by
  induction items with
  | nil => exact .nobody
  | cons item rest ih => exact .cons ih rfl rfl

theorem Check.meaningAll_asked (cast : Bool) (checks : List Check) (operator : Connective)
    (data : Json) :
    Asked (!operator.deciding) (checks.map fun check => check.meaning cast data)
      (Check.meaningAll cast checks operator data) := by
  induction checks with
  | nil => exact .nobody
  | cons check rest ih =>
    refine .cons ih ?_ ?_
    · simp only [Bool.not_not, beq_self_eq_true, if_true]
      rfl
    · cases operator <;> rfl

/-- **A verdict is what the condition means**, value or fault, for all data and with or without
casting. A meaning knows no table: a condition asks its checks from the left, an `and` up to the
first false answer, an `or` up to the first true one, and both up to the first failure; a comparison
looks at the value that its path leads to; a search asks the elements of the array at its path, each
about itself, up to one that passes or fails, and fails if there is no array; a negation takes its
target the other way round. -/
theorem Condition.decide_eq_meaning (cast : Bool) (data : Json) :
    (∀ condition : Condition, condition.decide cast data = condition.meaning cast data) ∧
    (Connective.and.deciding = false ∧ Connective.or.deciding = true) ∧
    (∀ operator checks, Asked (!operator.deciding)
      (checks.map fun check => check.meaning cast data)
      ((Condition.mk operator checks).meaning cast data)) ∧
    (∀ condition, (Check.nested condition).meaning cast data = condition.meaning cast data) ∧
    (∀ path operator expected, (Check.compare path operator expected).meaning cast data =
      .ok (operator.holdsCast cast (data.dotted path) expected)) ∧
    (∀ path condition, match (data.dotted path).items? with
      | some items => Asked false (items.map fun item => condition.meaning cast item)
          ((Check.contains path condition).meaning cast data)
      | none => (Check.contains path condition).meaning cast data = .error (.searchTarget path)) ∧
    (∀ target : Check, (Check.not target).meaning cast data =
      (fun answer => !answer) <$> target.meaning cast data) := by
  refine ⟨fun condition => ?_, ⟨rfl, rfl⟩, fun operator checks => ?_, fun _ => rfl,
    fun _ _ _ => rfl, fun path condition => ?_, fun target => ?_⟩
  · exact (Condition.decideIn_means cast condition data).answer
  · exact Check.meaningAll_asked cast checks operator data
  · cases hitems : (data.dotted path).items? with
    | some items =>
      have hsearch : (Check.contains path condition).meaning cast data =
          anyItem (fun item => condition.meaning cast item) items := by
        simp only [Check.meaning, searchedItems, hitems]
        rfl
      rw [hsearch]
      exact anyItem_asked _ items
    | none =>
      simp only [Check.meaning, searchedItems, hitems]
      rfl
  · simp only [Check.meaning]
    cases target.meaning cast data <;> rfl

/-- The path `id` is known of the whole when the search begins, and leads
elsewhere in the element. -/
example : (Condition.mk .and [.compare "id" .eq (.ofText "a"),
      .contains "xs" (.mk .and [.compare "id" .eq (.ofText "b")])]).decide false
    (.obj [("id", .str "a"), ("xs", .arr [.obj [("id", .str "b")]])]) = .ok true := rfl

end DocumentRules
