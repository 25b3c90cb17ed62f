import DocumentRules.Proofs.Decimal.Rank
import DocumentRules.Value.Order
import Mathlib.Data.String.Basic

/-!
# What is left of an order

The order of values is no linear order, and not even a partial one: `"10"` is less than `"9"` as a
text, and beside a number both stand for numbers, which are the other way round. Two things hold all
the same.

One holds of any two values. They are compared once and in one way, as texts or as numbers, and both
ways are linear orders; so a value is never less than another and greater too (`Value.lt_asymm`).

The other holds as long as the two ways do not mix. Among values that all read as texts, or that all
read as numbers without being texts, each has a place in one linear order, and the comparison is
that of the places (`Value.PlacedBy`). A number has a place because it is not NaN.
-/

set_option autoImplicit false

namespace DocumentRules.Value

/-! ## Two values -/

theorem gt_eq_lt (a b : Value) : a.gt b = b.lt a :=
  rfl

/-- The rank of the number that stands for a value, if one does. -/
def rank? (v : Value) : Option Double.Rank :=
  v.primitive.number?.bind Double.rank?

theorem less?_eq (a b : Value) :
    less? a b =
      if a.primitive.isText && b.primitive.isText then
        some (decide (a.primitive.toText < b.primitive.toText))
      else
        match a.primitive.number?, b.primitive.number? with
        | some x, some y => some (decide (x < y))
        | _, _ => none := by
  unfold less?
  cases a.primitive <;> cases b.primitive <;> rfl

/-- Two texts are compared as texts, any other two values by the ranks of their numbers. -/
theorem lt_iff {a b : Value} :
    a.lt b = true ↔
      if a.primitive.isText && b.primitive.isText then a.primitive.toText < b.primitive.toText
      else ∃ r q, a.rank? = some r ∧ b.rank? = some q ∧ r < q := by
  unfold lt rank?
  rw [less?_eq, beq_iff_eq]
  split
  · rw [Option.some.injEq, decide_eq_true_eq]
  · cases a.primitive.number? with
    | none => simp
    | some x =>
      cases b.primitive.number? with
      | none => simp
      | some y => simp only [Option.some.injEq, decide_eq_true_eq, Option.bind_some, Double.lt_iff]

/-- **No value is both less than another and greater.** -/
theorem lt_asymm {a b : Value} (h : a.lt b = true) : b.lt a = false := by
  rw [Bool.eq_false_iff]
  intro h'
  rw [lt_iff] at h h'
  rw [Bool.and_comm] at h'
  split at h
  · next htexts =>
    rw [if_pos htexts] at h'
    exact h.asymm h'
  · next htexts =>
    rw [if_neg htexts] at h'
    obtain ⟨r, q, ha, hb, hlt⟩ := h
    obtain ⟨q', r', hb', ha', hlt'⟩ := h'
    cases ha.symm.trans ha'
    cases hb.symm.trans hb'
    exact hlt.asymm hlt'

theorem isNaN_of_number? {v : Value} {x : Float} (h : v.primitive.number? = some x) :
    x.isNaN = false := by
  have hnat : ∀ n : ℕ, (OfNat.ofNat n : Float).isNaN = false := Double.isNaN_ofNat
  have htext : ∀ s, (Primitive.text s).number? = some x → x.isNaN = false := by
    intro s hs
    change (if Text.allBlank s.toList then some 0 else numericText? s) = some x at hs
    split at hs
    · cases hs
      exact hnat 0
    · exact Double.isNaN_of_isFinite (Option.filter_eq_some_iff.mp hs).2
  cases v with
  | undefined => cases h
  | json v =>
    cases v with
    | null =>
      cases h
      exact hnat 0
    | bool b =>
      cases b <;> cases h
      · exact hnat 0
      · exact hnat 1
    | num n =>
      cases h
      exact n.isNaN_toFloat
    | str text => exact htext text h
    | arr items => exact htext _ h
    | obj fields => exact htext _ h

/-! ## Values that are compared in one way -/

/-- On these values the order is that of their places in a linear order. -/
def PlacedBy {K : Type} [LinearOrder K] (place : Value → K) (values : List Value) : Prop :=
  ∀ a ∈ values, ∀ b ∈ values, (a.lt b = true ↔ place a < place b)

/-- Texts, and what is compared as its text. -/
theorem placedBy_toText {values : List Value} (h : ∀ v ∈ values, v.primitive.isText = true) :
    PlacedBy (fun v => v.primitive.toText) values := by
  intro a ha b hb
  rw [lt_iff, h a ha, h b hb]
  rfl

/-- The rank of the number that stands for a value; that of zero, where none does. -/
def rank (v : Value) : Double.Rank :=
  v.rank?.getD (toLex (0, toLex (0, 0)))

/-- A number stands for every document value that does not read as a text. -/
theorem rank?_eq_some {v : Json} (h : (Value.json v).primitive.isText = false) :
    (Value.json v).rank? = some (Value.json v).rank := by
  have hnumber : ∃ x, (Value.json v).primitive.number? = some x := by
    cases v with
    | null | bool b | num n => exact ⟨_, rfl⟩
    | str text | arr items | obj fields => cases h
  obtain ⟨x, hx⟩ := hnumber
  obtain ⟨r, hr⟩ := Double.exists_rank (isNaN_of_number? hx)
  have hrank : (Value.json v).rank? = some r := by
    rw [rank?, hx, Option.bind_some, hr]
  rw [rank, hrank]
  rfl

/-- Numbers, truth values and null. -/
theorem placedBy_rank {values : List Value}
    (h : ∀ v ∈ values, ∃ w, v = .json w ∧ v.primitive.isText = false) :
    PlacedBy rank values := by
  intro a ha b hb
  obtain ⟨v, rfl, hv⟩ := h a ha
  obtain ⟨w, rfl, hw⟩ := h b hb
  rw [lt_iff, hv, rank?_eq_some hv, rank?_eq_some hw]
  simp

/-! ## Values that are equal where their places are -/

/-- On these values the order and the equality are those of their places in a linear order. -/
structure RankedBy {K : Type} [LinearOrder K] (rank : Value → K) (values : List Value) :
    Prop where
  lt : PlacedBy rank values
  eq : ∀ a ∈ values, ∀ b ∈ values, (a.strictEq b = true ↔ rank a = rank b)

theorem rankedBy_toText {values : List Value} (h : ∀ v ∈ values, ∃ text, v = .ofText text) :
    RankedBy (fun v => v.primitive.toText) values where
  lt := by
    refine placedBy_toText fun v hv => ?_
    obtain ⟨text, rfl⟩ := h v hv
    rfl
  eq := by
    intro a ha b hb
    obtain ⟨s, rfl⟩ := h a ha
    obtain ⟨t, rfl⟩ := h b hb
    exact beq_iff_eq

/-- Numbers are equal if they are one double, or the two zeros, and these have one rank. -/
theorem rankedBy_rank {values : List Value} (h : ∀ v ∈ values, ∃ n, v = .json (.num n)) :
    RankedBy rank values where
  lt := by
    refine placedBy_rank fun v hv => ?_
    obtain ⟨n, rfl⟩ := h v hv
    exact ⟨.num n, rfl, rfl⟩
  eq := by
    intro a ha b hb
    obtain ⟨m, rfl⟩ := h a ha
    obtain ⟨n, rfl⟩ := h b hb
    have hm : Double.rank? m.toFloat = some (json (.num m)).rank := rank?_eq_some (v := .num m) rfl
    have hn : Double.rank? n.toFloat = some (json (.num n)).rank := rank?_eq_some (v := .num n) rfl
    have heq : (json (.num m)).strictEq (.json (.num n)) = (m.toFloat == n.toFloat) := rfl
    rw [heq, Double.beq_iff, hm, hn]
    simp [eq_comm]

/-- Texts, and likewise numbers, are in a linear order. -/
theorem exists_rankedBy {values : List Value}
    (h : (∀ v ∈ values, ∃ text, v = .ofText text) ∨ ∀ v ∈ values, ∃ n, v = .json (.num n)) :
    ∃ (K : Type) (_ : LinearOrder K) (rank : Value → K), RankedBy rank values := by
  rcases h with htexts | hnumbers
  · exact ⟨_, _, _, rankedBy_toText htexts⟩
  · exact ⟨_, _, _, rankedBy_rank hnumbers⟩

end DocumentRules.Value
