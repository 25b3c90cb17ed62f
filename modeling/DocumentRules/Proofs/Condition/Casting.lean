import DocumentRules.Proofs.Condition.Negation
import DocumentRules.Proofs.Value.Comparisons
import DocumentRules.Proofs.Value.Written

/-!
# Comparing with casting

With casting, a check compares two texts, and texts are in a linear order. So the checks of a value
at a path are those of a linear order, for any data and any expected value, and missing values have
their place as well: exactly one of less, equal and greater holds, and the negation of a check is
the check of the opposite comparison, wherever it stands (`Condition.cast_checks_total`). Without
casting neither holds, since two values need not have an order.

Casting does not only make more values equal. Numbers are equal by what they are worth, and their
texts show how they are spelled; `{"a":1}` and `{"a":1.0}` are equal and have different texts. An
equality that holds without casting is kept exactly if the two values are written alike
(`Condition.cast_equal_iff`).
-/

set_option autoImplicit false

namespace DocumentRules

/-- The comparison that holds of two things in an order exactly if this one does not. -/
def Comparison.opposite? : Comparison → Option Comparison
  | .eq => none
  | .gt => some .lte
  | .lt => some .gte
  | .gte => some .lt
  | .lte => some .gt

/-! ## Single checks -/

/-- With casting a comparison is that of the texts. -/
theorem Comparison.holdsCast_true (comparison : Comparison) (actual expected : Value) :
    comparison.holdsCast true actual expected =
      comparison.admits (cmp actual.text expected.text) := by
  show comparison.holds (.ofText actual.text) (.ofText expected.text) = _
  have horder : Value.ordering? (.ofText actual.text) (.ofText expected.text) =
      some (cmp actual.text expected.text) := rfl
  by_cases heq : comparison = .eq
  · subst heq
    show (actual.text == expected.text) = (cmp actual.text expected.text).isEq
    rw [Bool.eq_iff_iff, beq_iff_eq, ← cmp_eq_eq_iff]
    cases cmp actual.text expected.text <;> simp
  · rw [Value.holds_eq_admits heq, horder]
    rfl

theorem Comparison.admits_opposite {comparison opposite : Comparison}
    (h : comparison.opposite? = some opposite) (order : Ordering) :
    opposite.admits order = !comparison.admits order := by
  cases comparison <;> cases h <;> cases order <;> rfl

theorem Condition.decide_compare (cast : Bool) (data : Json) (outer : Connective) (path : String)
    (comparison : Comparison) (expected : Value) :
    (mk outer [.compare path comparison expected]).decide cast data =
      .ok (comparison.holdsCast cast (data.dotted path) expected) := by
  rw [decide_singleton]
  rfl

/-- A negated check takes the step of the opposite check. -/
theorem Check.decideIn_not_compare {comparison opposite : Comparison}
    (h : comparison.opposite? = some opposite) (path : String) (expected : Value) (data : Json) :
    (Check.not (.compare path comparison expected)).decideIn true data =
      (Check.compare path opposite expected).decideIn true data := by
  have hopposite : ∀ actual,
      opposite.holdsCast true actual expected = !comparison.holdsCast true actual expected := by
    intro actual
    rw [Comparison.holdsCast_true, Comparison.holdsCast_true, Comparison.admits_opposite h]
  rw [Check.decideIn_not]
  simp only [Check.decideIn, map_bind, map_pure, hopposite]

/-! ## The laws -/

/-- **With casting, the checks of a value are those of a linear order**, that of the texts. Exactly
one of less, equal and greater holds, at most holds where greater does not, and at least where less
does not. A negated check is decided as the check of the opposite comparison is, alone and at any
place of a condition. -/
theorem Condition.cast_checks_total (data : Json) (path : String) (expected : Value) :
    (∃ holds : Comparison → Bool,
      (∀ outer comparison, (mk outer [.compare path comparison expected]).decide true data =
        .ok (holds comparison)) ∧
      [Comparison.lt, .eq, .gt].countP holds = 1 ∧
      holds .lte = !holds .gt ∧ holds .gte = !holds .lt ∧
      (holds .lt = true ↔ (data.dotted path).text < expected.text) ∧
      (holds .eq = true ↔ (data.dotted path).text = expected.text)) ∧
    ∀ comparison opposite, Comparison.opposite? comparison = some opposite →
      (∀ outer, (mk outer [.not (.compare path comparison expected)]).decide true data =
        (mk outer [.compare path opposite expected]).decide true data) ∧
      ∀ (context : Context) outer before after,
        (context.fill
            (mk outer (before ++ .not (.compare path comparison expected) :: after))).decide
            true data =
          (context.fill (mk outer (before ++ .compare path opposite expected :: after))).decide
            true data := by
  refine ⟨⟨fun comparison => comparison.admits (cmp (data.dotted path).text expected.text),
    ?decided, ?one, ?lte, ?gte, ?lt, ?eq⟩, fun comparison opposite hopposite => ⟨?alone, ?anywhere⟩⟩
  case decided =>
    intro outer comparison
    rw [decide_compare, Comparison.holdsCast_true]
  case one | lte | gte => cases cmp (data.dotted path).text expected.text <;> rfl
  case lt =>
    rw [← cmp_eq_lt_iff]
    cases cmp (data.dotted path).text expected.text <;> simp [Comparison.admits]
  case eq =>
    have hequal : cmp (data.dotted path).text expected.text = .eq ↔
        (data.dotted path).text = expected.text := cmp_eq_eq_iff ..
    rw [← hequal]
    cases cmp (data.dotted path).text expected.text <;> simp [Comparison.admits]
  case alone =>
    intro outer
    rw [decide_singleton, decide_singleton, Check.decideIn_not_compare hopposite]
  case anywhere =>
    intro context outer before after
    exact decide_exchange (fun data => Check.decideIn_not_compare hopposite path expected data)
      context outer before after data

/-- A missing value is not less than nine, and so at least nine, as the text that names it is. -/
theorem Condition.missing_notLess :
    Comparison.lt.opposite? = some .gte ∧
      (mk .and [.not (.compare "a" .lt (.json (.num (.int 9))))]).decide true (.obj []) =
        (mk .and [.compare "a" .gte (.json (.num (.int 9)))]).decide true (.obj []) :=
  ⟨rfl, ((cast_checks_total (.obj []) "a" (.json (.num (.int 9)))).2 .lt .gte rfl).1 .and⟩

/-- Numbers are compared as the texts that they are written with. -/
example : (Condition.mk .and [.compare "a" .lt (.json (.num (.int 9)))]).decide true
    (.obj [("a", .num (.int 10))]) = .ok true := rfl

/-- **When casting keeps an equality.** A check for equality that holds without casting holds with
casting exactly if the two values are written alike: numbers outside of objects have the same
text, and objects are the same. Equal values are written alike if they hold no object, and no
integer beyond 53 bits. -/
theorem Condition.cast_equal_iff :
    (∀ (data : Json) (path : String) (expected : Value) (outer : Connective),
      (mk outer [.compare path .eq expected]).decide false data = .ok true →
        ((mk outer [.compare path .eq expected]).decide true data = .ok true ↔
          (data.dotted path).WrittenAlike expected)) ∧
      (∀ a b : Value, a.strictEq b = true → (a.text = b.text ↔ a.WrittenAlike b)) ∧
      ∀ a b : Value, a.showsWorth = true → b.showsWorth = true → a.strictEq b = true →
        a.WrittenAlike b := by
  refine ⟨fun data path expected outer h => ?_, fun a b h => Value.text_eq_iff h,
    fun a b ha hb h => Value.writtenAlike_of_strictEq ha hb h⟩
  rw [decide_compare] at h ⊢
  have hequal : (data.dotted path).strictEq expected = true := Except.ok.inj h
  rw [← Value.text_eq_iff hequal, Except.ok.injEq]
  exact beq_iff_eq

/-- In a list the number may be spelled as one likes. -/
theorem Condition.castList_equal :
    let listed : Json := .arr [.num (.int 1), .obj [("b", .num (.int 2))]]
    let pointed : Json := .arr [.num (.double 1 rfl), .obj [("b", .num (.int 2))]]
    let check := mk .and [.compare "a" .eq (.json pointed)]
    check.decide false (.obj [("a", listed)]) = .ok true ∧
      check.decide true (.obj [("a", listed)]) = .ok true := by
  intro listed pointed check
  have hequal : check.decide false (.obj [("a", listed)]) = .ok true := by
    rw [decide_compare]
    exact congrArg Except.ok (by decide +kernel)
  have hone : (Number.int 1).text = (Number.double 1 rfl).text := by decide +kernel
  have hwritten : Value.WrittenAlike (.json listed) (.json pointed) := ⟨hone, rfl, trivial⟩
  exact ⟨hequal, (cast_equal_iff.1 _ "a" (.json pointed) .and hequal).mpr hwritten⟩

/-- In an object it may not: `{"a":1}` and `{"a":1.0}` are equal, and their texts are not. -/
theorem Condition.equalObject_cast :
    let whole : Json := .obj [("a", .num (.int 1))]
    let pointed : Json := .obj [("a", .num (.double 1 rfl))]
    let check := mk .and [.compare "x" .eq (.json pointed)]
    check.decide false (.obj [("x", whole)]) = .ok true ∧
      check.decide true (.obj [("x", whole)]) = .ok false := by
  intro whole pointed check
  rw [decide_compare, decide_compare]
  exact ⟨congrArg Except.ok (by decide +kernel), congrArg Except.ok (by decide +kernel)⟩

end DocumentRules
