import DocumentRules.Proofs.Value.Order
import DocumentRules.Proofs.Value.Written

/-!
# Equal, less or greater

Equality goes into arrays and objects and compares numbers by what they are worth. The order does
not go into them: it compares their texts, and a text shows how a number is spelled. So of the
three, equal, less and greater, two can hold of one pair. `{"a":1}` and `{"a":1.0}` are equal, and
the first is greater because a brace comes after a point.

This is the only way. A value that is no container and is equal to another has its place in the
order as well (`Value.not_lt_of_scalar`), and no value is both less and greater. So the comparisons
exclude each other unless the two are equal arrays or equal objects with different texts
(`Value.at_most_one_comparison`). Arrays that hold no object, and no integer beyond 53 bits, have
one text if they are equal (`Json.text_eq_of_strictEq`), and are not among them.
-/

set_option autoImplicit false

namespace DocumentRules

namespace Value

variable {a b : Value}

/-! ## Equal values in the order -/

/-- Arrays and objects. -/
def isContainer : Value → Bool
  | .json (.arr _) => true
  | .json (.obj _) => true
  | _ => false

theorem lt_irrefl (a : Value) : a.lt a = false := by
  cases h : a.lt a with
  | false => rfl
  | true => exact h.symm.trans (lt_asymm h)

theorem isContainer_of_strictEq (h : a.strictEq b = true) (ha : a.isContainer = true) :
    b.isContainer = true := by
  cases a with
  | undefined => cases ha
  | json v =>
    cases b with
    | undefined => cases h
    | json w =>
      cases v with
      | arr items => cases w <;> first | rfl | cases h
      | obj fields => cases w <;> first | rfl | cases h
      | null | bool p | num n | str s => cases ha

/-- Apart from containers, only numbers can be equal without being one and the same value. -/
theorem eq_or_numbers_of_strictEq (h : a.strictEq b = true) (hscalar : a.isContainer = false) :
    a = b ∨ ∀ v ∈ [a, b], ∃ n, v = .json (.num n) := by
  cases a with
  | undefined =>
    cases b with
    | undefined => exact .inl rfl
    | json w => cases h
  | json v =>
    cases b with
    | undefined => cases h
    | json w =>
      cases v with
      | null => cases w <;> first | exact .inl rfl | cases h
      | bool p =>
        cases w with
        | bool q => exact .inl (by rw [eq_of_beq (show (p == q) = true from h)])
        | _ => cases h
      | num m =>
        cases w with
        | num n => exact .inr (by simp)
        | _ => cases h
      | str s =>
        cases w with
        | str t => exact .inl (by rw [eq_of_beq (show (s == t) = true from h)])
        | _ => cases h
      | arr items => cases hscalar
      | obj fields => cases hscalar

theorem not_lt_of_scalar (h : a.strictEq b = true) (hscalar : a.isContainer = false) :
    a.lt b = false ∧ b.lt a = false := by
  rcases eq_or_numbers_of_strictEq h hscalar with rfl | hnumbers
  · exact ⟨lt_irrefl a, lt_irrefl a⟩
  · have ha : a ∈ [a, b] := by simp
    have hb : b ∈ [a, b] := by simp
    have hranked := rankedBy_rank hnumbers
    have hrank : a.rank = b.rank := (hranked.eq a ha b hb).mp h
    simp [Bool.eq_false_iff, hranked.lt a ha b hb, hranked.lt b hb a ha, hrank]

theorem lt_iff_of_container (ha : a.isContainer = true) (hb : b.isContainer = true) :
    a.lt b = true ↔ a.text < b.text := by
  have hprimitive : ∀ v : Value, v.isContainer = true → v.primitive = .text v.text := by
    intro v hv
    cases v with
    | undefined => cases hv
    | json v => cases v <;> first | rfl | cases hv
  rw [lt_iff, hprimitive a ha, hprimitive b hb]
  rfl

/-! ## The comparisons together -/

/-- The values are equal, and the order tells them apart: equal arrays or equal objects
with different texts. -/
structure Clashes (a b : Value) : Prop where
  equal : a.strictEq b = true
  container : a.isContainer = true
  text : a.text ≠ b.text

theorem clashes_iff : a.Clashes b ↔ a.strictEq b = true ∧ (a.lt b = true ∨ a.gt b = true) := by
  constructor
  · rintro ⟨heq, ha, htext⟩
    have hb := isContainer_of_strictEq heq ha
    rw [gt_eq_lt, lt_iff_of_container ha hb, lt_iff_of_container hb ha]
    exact ⟨heq, lt_or_gt_of_ne htext⟩
  · rintro ⟨heq, horder⟩
    rw [gt_eq_lt] at horder
    cases ha : a.isContainer with
    | false =>
      obtain ⟨hlt, hgt⟩ := not_lt_of_scalar heq ha
      rw [hlt, hgt, or_self] at horder
      cases horder
    | true =>
      have hb := isContainer_of_strictEq heq ha
      rw [lt_iff_of_container ha hb, lt_iff_of_container hb ha] at horder
      exact ⟨heq, ha, ne_iff_lt_or_gt.mpr horder⟩

/-- Values without objects and without large integers never clash. -/
theorem not_clashes {v w : Json} (hv : v.showsWorth = true) (hw : w.showsWorth = true) :
    ¬ (json v).Clashes (.json w) :=
  fun h => h.text (Json.text_eq_of_strictEq hv hw h.equal)

/-- **Equal, less and greater exclude each other** for all pairs but equal arrays and equal objects
with different texts. Of such a pair two of them hold, of which one is equal, and less and greater
never hold together. -/
theorem at_most_one_comparison (a b : Value) :
    ([Comparison.eq, .lt, .gt].countP (·.holds a b) ≤ 1 ↔ ¬ a.Clashes b) ∧
      (a.Clashes b ↔ Comparison.eq.holds a b = true ∧
        (Comparison.lt.holds a b = true ∨ Comparison.gt.holds a b = true)) ∧
      ¬ (Comparison.lt.holds a b = true ∧ Comparison.gt.holds a b = true) := by
  have hasymm : ¬ (a.lt b = true ∧ a.gt b = true) := by
    rintro ⟨hlt, hgt⟩
    exact Bool.false_ne_true ((lt_asymm hlt).symm.trans hgt)
  refine ⟨?_, clashes_iff, hasymm⟩
  rw [clashes_iff]
  cases heq : a.strictEq b <;> cases hlt : a.lt b <;> cases hgt : a.gt b <;>
    simp_all [Comparison.holds]

/-- The same field, written once as an integer and once as a double. -/
theorem equal_and_greater :
    let written : Value := .json (.obj [("a", .num (.int 1))])
    let pointed : Value := .json (.obj [("a", .num (.double 1 (by decide +kernel)))])
    Comparison.eq.holds written pointed = true ∧ Comparison.gt.holds written pointed = true := by
  decide +kernel

end Value

end DocumentRules
