import DocumentRules.Proofs.Value.Order

/-!
# The comparisons together

Four comparisons are read off one relation, twice with the sides swapped, and each has its negation.
That they never contradict each other is seen best when the relation is turned into what it stands
for. Two values that are compared as texts have the order of the texts, two that are compared as
numbers that of their ranks, and all others have none (`Value.ordering?`). Swapping the values swaps
the order, and each comparison holds of the orders that it admits. The rest is about three cases.

So there are two kinds of pairs. Where there is no order, in one direction or the other, all four
comparisons fail and all their negations hold. Where there is one, *not less* is *at least*, and a
value is less, or greater, or both at most and at least (`Value.comparisons_agree`).
-/

set_option autoImplicit false

namespace DocumentRules

/-- The orders of two things in which the comparison holds. -/
def Comparison.admits : Comparison → Ordering → Bool
  | .eq => Ordering.isEq
  | .gt => Ordering.isGT
  | .lt => Ordering.isLT
  | .gte => Ordering.isGE
  | .lte => Ordering.isLE

namespace Value

/-! ## The order of two values -/

/-- The order of two values, if they have one: that of their texts if both read as texts, otherwise
that of the ranks of the numbers that stand for them. -/
def ordering? (a b : Value) : Option Ordering :=
  if a.primitive.isText && b.primitive.isText then
    some (cmp a.primitive.toText b.primitive.toText)
  else a.rank?.bind fun r => b.rank?.map (cmp r)

theorem isLT_cmp {K : Type} [LinearOrder K] (x y : K) : (cmp x y).isLT = decide (x < y) := by
  rw [Bool.eq_iff_iff, decide_eq_true_eq, ← cmp_eq_lt_iff]
  cases cmp x y <;> simp

/-- The number that stands for a value has a rank. -/
theorem rank?_of_number? {v : Value} {x : Float} (h : v.primitive.number? = some x) :
    ∃ r, Double.rank? x = some r ∧ v.rank? = some r := by
  obtain ⟨r, hr⟩ := Double.exists_rank (isNaN_of_number? h)
  refine ⟨r, hr, ?_⟩
  rw [rank?, h, Option.bind_some, hr]

theorem less?_eq_ordering? (a b : Value) : less? a b = (ordering? a b).map Ordering.isLT := by
  by_cases htexts : (a.primitive.isText && b.primitive.isText) = true
  · rw [less?_eq, ordering?, if_pos htexts, if_pos htexts, Option.map_some, isLT_cmp]
  · rw [less?_eq, ordering?, if_neg htexts, if_neg htexts]
    cases ha : a.primitive.number? with
    | none =>
      rw [rank?, ha]
      rfl
    | some x =>
      obtain ⟨r, hr, hrank⟩ := rank?_of_number? ha
      cases hb : b.primitive.number? with
      | none =>
        rw [hrank, rank?, hb]
        rfl
      | some y =>
        obtain ⟨q, hq, hrank'⟩ := rank?_of_number? hb
        have hlt : x < y ↔ r < q := by
          rw [Double.lt_iff, hr, hq]
          simp
        rw [hrank, hrank', Option.bind_some, Option.map_some, Option.map_some, isLT_cmp]
        exact congrArg some (decide_eq_decide.mpr hlt)

theorem ordering?_swap (a b : Value) : ordering? b a = (ordering? a b).map Ordering.swap := by
  unfold ordering?
  rw [Bool.and_comm]
  by_cases htexts : (a.primitive.isText && b.primitive.isText) = true
  · rw [if_pos htexts, if_pos htexts]
    exact congrArg some (cmp_swap ..).symm
  · rw [if_neg htexts, if_neg htexts]
    cases a.rank? with
    | none => cases b.rank? <;> rfl
    | some r =>
      cases b.rank? with
      | none => rfl
      | some q => exact congrArg some (cmp_swap ..).symm

/-- A comparison other than equality holds of two values that have an order, if it admits it. -/
theorem holds_eq_admits {comparison : Comparison} (h : comparison ≠ .eq) (a b : Value) :
    comparison.holds a b = (ordering? a b).any comparison.admits := by
  cases comparison with
  | eq => exact absurd rfl h
  | lt =>
    show (less? a b == some true) = _
    rw [less?_eq_ordering?]
    rcases ordering? a b with _ | _ | _ | _ <;> rfl
  | gte =>
    show (less? a b == some false) = _
    rw [less?_eq_ordering?]
    rcases ordering? a b with _ | _ | _ | _ <;> rfl
  | gt =>
    show (less? b a == some true) = _
    rw [less?_eq_ordering?, ordering?_swap]
    rcases ordering? a b with _ | _ | _ | _ <;> rfl
  | lte =>
    show (less? b a == some false) = _
    rw [less?_eq_ordering?, ordering?_swap]
    rcases ordering? a b with _ | _ | _ | _ <;> rfl

/-! ## Pairs with and without an order -/

/-- Both values read as texts, or a number stands for each. -/
def Comparable (a b : Value) : Prop :=
  (a.primitive.isText = true ∧ b.primitive.isText = true) ∨
    (a.primitive.number?.isSome = true ∧ b.primitive.number?.isSome = true)

theorem isSome_less?_iff {a b : Value} : (less? a b).isSome = true ↔ a.Comparable b := by
  rw [less?_eq, Comparable, ← Bool.and_eq_true_iff, ← Bool.and_eq_true_iff]
  split
  · simp_all
  · cases a.primitive.number? <;> cases b.primitive.number? <;> simp_all

/-- **The comparisons agree.** Without an order, which is the same in both directions, all
fail and all their negations hold. With one, less is greater the other way round and the
negation of at least, greater is the negation of at most, and a value is less, or greater, or
both at most and at least. -/
theorem comparisons_agree (a b : Value) :
    (¬ a.Comparable b ∧ less? a b = none ∧ less? b a = none ∧
      (∀ comparison ∈ [Comparison.lt, .gt, .lte, .gte], comparison.holds a b = false) ∧
      ∀ negation ∈ [Inversion.notLt, .notGt, .notLte, .notGte], negation.holds a b = true) ∨
    (a.Comparable b ∧ (less? a b).isSome = true ∧ (less? b a).isSome = true ∧
      Comparison.lt.holds a b = Comparison.gt.holds b a ∧
      Comparison.lt.holds a b = !Comparison.gte.holds a b ∧
      Comparison.lt.holds a b = Inversion.notGte.holds a b ∧
      Comparison.gt.holds a b = !Comparison.lte.holds a b ∧
      Comparison.gt.holds a b = Inversion.notLte.holds a b ∧
      [Comparison.lt.holds a b, Comparison.gt.holds a b,
        Comparison.lte.holds a b && Comparison.gte.holds a b].count true = 1) := by
  have hcomparable := isSome_less?_iff (a := a) (b := b)
  have hback : less? b a = ((ordering? a b).map Ordering.swap).map Ordering.isLT := by
    rw [less?_eq_ordering?, ordering?_swap]
  have hholds : ∀ comparison ≠ Comparison.eq,
      comparison.holds a b = (ordering? a b).any comparison.admits :=
    fun comparison h => holds_eq_admits h a b
  rw [less?_eq_ordering?] at hcomparable ⊢
  cases horder : ordering? a b with
  | none =>
    rw [horder] at hcomparable hback hholds
    refine .inl ⟨hcomparable.not.mp Bool.false_ne_true, rfl, hback, ?_, ?_⟩
    · intro comparison hmem
      exact hholds comparison (by rintro rfl; simp at hmem)
    · intro negation hmem
      have hpositive : negation.positive ≠ .eq := by
        cases negation <;> simp [Inversion.positive] at hmem ⊢
      exact congrArg (!·) (hholds negation.positive hpositive)
  | some order =>
    rw [horder] at hcomparable hback hholds
    have hgreater : Comparison.gt.holds b a = Comparison.lt.holds a b := rfl
    have hnotGte : Inversion.notGte.holds a b = !Comparison.gte.holds a b := rfl
    have hnotLte : Inversion.notLte.holds a b = !Comparison.lte.holds a b := rfl
    refine .inr ⟨hcomparable.mp rfl, rfl, by rw [hback]; rfl, ?_⟩
    rw [hgreater, hnotGte, hnotLte, hholds .lt nofun, hholds .gt nofun, hholds .lte nofun,
      hholds .gte nofun]
    cases order <;> decide

end Value

end DocumentRules
