import DocumentRules.Evaluation.Aggregate
import DocumentRules.Proofs.Value.Order
import Mathlib.Data.List.Induction

/-!
# The least and the greatest of an array

The least item and the greatest are found in one pass: an item is kept until another beats it. What
should come of that is the first item that no other beats. But an item is only ever asked to beat
the one that is kept when its turn comes, and where some pairs have no order this may not be the
right question: in `[5, "x", 3]` nothing beats `"x"`, and `"x"` does not beat five, so that five is
kept, and three after it.

So the first unbeaten item is returned exactly if at some place of it the pass takes it up
(`Aggregate.returns_first_unbeaten_iff`): since none beats it, it is never given up again. Where the
items are compared in one way, as texts or as numbers, it always is taken up. Whatever is kept by
then is beaten by some item, and so by this one.
-/

set_option autoImplicit false

namespace DocumentRules

/-! ## One pass -/

section

variable {beats : Value → Value → Bool}

theorem bestOf_append (first : Value) (front back : List Value) :
    bestOf beats first (front ++ back) = bestOf beats (bestOf beats first front) back :=
  List.foldl_append

/-- What no later value beats is kept. -/
theorem bestOf_of_unbeaten {best : Value} {rest : List Value}
    (h : ∀ value ∈ rest, beats value best = false) : bestOf beats best rest = best := by
  induction rest with
  | nil => rfl
  | cons value rest ih =>
    have hkept : bestOf beats best (value :: rest) = bestOf beats best rest := by
      rw [bestOf, List.foldl_cons, h value List.mem_cons_self]
      rfl
    rw [hkept, ih fun later hlater => h later (.tail value hlater)]

/-- A value that is kept at the end has been the first, or has beaten the one
that was kept before. -/
theorem bestOf_cases (first : Value) (rest : List Value) :
    bestOf beats first rest = first ∨
      ∃ front back, rest = front ++ bestOf beats first rest :: back ∧
        beats (bestOf beats first rest) (bestOf beats first front) = true := by
  induction rest using List.reverseRecOn with
  | nil => exact .inl rfl
  | append_singleton rest value ih =>
    have hlast : bestOf beats first (rest ++ [value]) =
        if beats value (bestOf beats first rest) then value else bestOf beats first rest :=
      bestOf_append first rest [value]
    rw [hlast]
    split
    · next hbeats => exact .inr ⟨rest, [], rfl, hbeats⟩
    · refine ih.imp id ?_
      rintro ⟨front, back, hrest, hbeats⟩
      refine ⟨front, back ++ [value], ?_, hbeats⟩
      rw [← List.cons_append, ← List.append_assoc, ← hrest]

theorem bestOf_mem (first : Value) (rest : List Value) :
    bestOf beats first rest ∈ first :: rest := by
  rw [List.mem_cons, List.mem_iff_append]
  exact (bestOf_cases first rest).imp id fun ⟨front, back, hrest, _⟩ => ⟨front, back, hrest⟩

/-- An unbeaten value is kept at the end if it is ever taken up. -/
theorem bestOf_eq_iff {first value : Value} {rest : List Value}
    (hunbeaten : ∀ other ∈ rest, beats other value = false) :
    bestOf beats first rest = value ↔
      value = first ∨ ∃ front back, rest = front ++ value :: back ∧
        beats value (bestOf beats first front) = true := by
  constructor
  · rintro rfl
    exact bestOf_cases first rest
  · rintro (rfl | ⟨front, back, rfl, hbeats⟩)
    · exact bestOf_of_unbeaten hunbeaten
    · have htaken : bestOf beats first (front ++ value :: back) = bestOf beats value back := by
        rw [bestOf_append, bestOf, List.foldl_cons, if_pos hbeats]
        rfl
      rw [htaken]
      refine bestOf_of_unbeaten fun other hother => hunbeaten other ?_
      exact List.mem_append_right front (.tail value hother)

end

/-! ## The aggregates -/

namespace Aggregate

/-- The aggregates that return an item, and what makes one item beat another. -/
inductive Picks : Aggregate → (Value → Value → Bool) → Prop where
  | least : Picks .min Value.lt
  | greatest : Picks .max Value.gt

/-- No item of an array beats this one. -/
def Unbeaten (beats : Value → Value → Bool) (items : List Json) (item : Json) : Prop :=
  ∀ other ∈ items, beats (.json other) (.json item) = false

instance (beats : Value → Value → Bool) (items : List Json) (item : Json) :
    Decidable (Unbeaten beats items item) :=
  inferInstanceAs (Decidable (∀ other ∈ items, beats (.json other) (.json item) = false))

/-- The first item of an array that none beats, and its position. -/
structure FirstUnbeaten (beats : Value → Value → Bool) (items : List Json) (i : Nat)
    (item : Json) : Prop where
  here : items[i]? = some item
  unbeaten : Unbeaten beats items item
  first : ∀ other ∈ items.take i, ¬ Unbeaten beats items other

variable {operator : Aggregate} {beats : Value → Value → Bool} {items : List Json} {item : Json}

theorem apply_nil (operator : Aggregate) :
    operator.apply (.ofItems []) = .error (.domain (.emptyArray (Operator.symbol operator))) :=
  rfl

theorem Picks.apply_cons (h : Picks operator beats) (first : Json) (rest : List Json) :
    operator.apply (.ofItems (first :: rest)) =
      .ok (bestOf beats (.json first) (rest.map .json)) := by
  cases h <;> rfl

/-- Among values that have places in a linear order, one that `a` does not beat itself beats all
that `a` beats. -/
theorem Picks.beats_of_beaten (h : Picks operator beats) {K : Type} [LinearOrder K]
    {place : Value → K} {values : List Value} (hplace : Value.PlacedBy place values)
    {a b c : Value} (ha : a ∈ values) (hb : b ∈ values) (hc : c ∈ values)
    (hab : beats a b = true) (hac : beats a c = false) : beats c b = true := by
  rw [Bool.eq_false_iff, ne_eq] at hac
  cases h with
  | least =>
    rw [hplace a ha b hb] at hab
    rw [hplace a ha c hc, not_lt] at hac
    exact (hplace c hc b hb).mpr (hac.trans_lt hab)
  | greatest =>
    rw [Value.gt_eq_lt, hplace b hb a ha] at hab
    rw [Value.gt_eq_lt, hplace c hc a ha, not_lt] at hac
    rw [Value.gt_eq_lt]
    exact (hplace b hb c hc).mpr (hab.trans_le hac)

/-- An unbeaten item is returned exactly if it is taken up: at first, or by beating the one that is
returned for the items in front of it. -/
theorem Picks.apply_unbeaten_iff (h : Picks operator beats) (hitem : Unbeaten beats items item) :
    operator.apply (.ofItems items) = .ok (.json item) ↔
      ∃ front back, items = front ++ item :: back ∧
        (front = [] ∨ ∃ kept, operator.apply (.ofItems front) = .ok kept ∧
          beats (.json item) kept = true) := by
  cases items with
  | nil => simp [apply_nil]
  | cons first rest =>
    have hrest : ∀ other ∈ rest.map Value.json, beats other (.json item) = false := by
      intro other hother
      obtain ⟨x, hx, rfl⟩ := List.mem_map.mp hother
      exact hitem x (.tail first hx)
    rw [h.apply_cons, Except.ok.injEq, bestOf_eq_iff hrest]
    constructor
    · rintro (hfirst | ⟨front, back, hmap, hbeats⟩)
      · cases hfirst
        exact ⟨[], rest, rfl, .inl rfl⟩
      · obtain ⟨front, tail, rfl, rfl, htail⟩ := List.map_eq_append_iff.mp hmap
        obtain ⟨x, back, rfl, hx, rfl⟩ := List.map_eq_cons_iff.mp htail
        cases hx
        exact ⟨first :: front, back, rfl, .inr ⟨_, h.apply_cons first front, hbeats⟩⟩
    · rintro ⟨front, back, hitems, hfront⟩
      cases front with
      | nil =>
        cases hitems
        exact .inl rfl
      | cons x front =>
        cases hitems
        obtain hnil | ⟨kept, hkept, hbeats⟩ := hfront
        · cases hnil
        · rw [h.apply_cons] at hkept
          cases hkept
          exact .inr ⟨front.map .json, back.map .json, by simp, hbeats⟩

/-- In a linear order the first unbeaten item beats all items in front of it. -/
theorem FirstUnbeaten.beats_front (h : Picks operator beats) {K : Type} [LinearOrder K]
    {place : Value → K} (hplace : Value.PlacedBy place (items.map .json)) {i : Nat}
    (hitem : FirstUnbeaten beats items i item) :
    ∀ x ∈ items.take i, beats (.json item) (.json x) = true := by
  intro x hx
  have hbeaten := hitem.first x hx
  simp only [Unbeaten, not_forall, Bool.not_eq_false] at hbeaten
  obtain ⟨other, hother, hbeats⟩ := hbeaten
  refine h.beats_of_beaten hplace ?_ ?_ ?_ hbeats (hitem.unbeaten other hother)
  · exact List.mem_map_of_mem hother
  · exact List.mem_map_of_mem (List.mem_of_mem_take hx)
  · exact List.mem_map_of_mem (List.mem_of_getElem? hitem.here)

theorem FirstUnbeaten.apply_of_placedBy (h : Picks operator beats) {K : Type} [LinearOrder K]
    {place : Value → K} (hplace : Value.PlacedBy place (items.map .json)) {i : Nat}
    (hitem : FirstUnbeaten beats items i item) :
    operator.apply (.ofItems items) = .ok (.json item) := by
  rw [h.apply_unbeaten_iff hitem.unbeaten]
  obtain ⟨hi, hget⟩ := List.getElem?_eq_some_iff.mp hitem.here
  refine ⟨items.take i, items.drop (i + 1), ?_, ?_⟩
  · rw [← hget, List.getElem_cons_drop, List.take_append_drop]
  · have hbeats := hitem.beats_front h hplace
    cases hfront : items.take i with
    | nil => exact .inl rfl
    | cons first rest =>
      rw [hfront] at hbeats
      refine .inr ⟨_, h.apply_cons first rest, ?_⟩
      have hkept : bestOf beats (.json first) (rest.map .json) ∈ (first :: rest).map .json :=
        bestOf_mem _ _
      obtain ⟨x, hx, hkept⟩ := List.mem_map.mp hkept
      rw [← hkept]
      exact hbeats x hx

/-- **The first unbeaten item is returned if it is ever taken up.** An aggregate for the least or
the greatest item returns the first one that none beats exactly if the array begins with it, or it
beats, somewhere in the array, what is returned for the items in front of it there. Among items that
all read as texts, and among items of which none does, it always is returned. -/
theorem returns_first_unbeaten_iff {i : Nat} (hoperator : Picks operator beats)
    (hitem : FirstUnbeaten beats items i item) :
    (operator.apply (.ofItems items) = .ok (.json item) ↔
      ∃ front back, items = front ++ item :: back ∧
        (front = [] ∨ ∃ kept, operator.apply (.ofItems front) = .ok kept ∧
          beats (.json item) kept = true)) ∧
    ((∀ x ∈ items, (Value.json x).primitive.isText = true) ∨
        (∀ x ∈ items, (Value.json x).primitive.isText = false) →
      operator.apply (.ofItems items) = .ok (.json item)) := by
  refine ⟨hoperator.apply_unbeaten_iff hitem.unbeaten, ?_⟩
  rintro (htexts | hnumbers)
  · refine hitem.apply_of_placedBy hoperator (Value.placedBy_toText fun v hv => ?_)
    obtain ⟨x, hx, rfl⟩ := List.mem_map.mp hv
    exact htexts x hx
  · refine hitem.apply_of_placedBy hoperator (Value.placedBy_rank fun v hv => ?_)
    obtain ⟨x, hx, rfl⟩ := List.mem_map.mp hv
    exact ⟨x, rfl, hnumbers x hx⟩

/-- Null and false both stand for zero, and null is the first of them. -/
theorem min_null_false :
    FirstUnbeaten Value.lt [.bool true, .null, .bool false] 1 .null ∧
      Aggregate.min.apply (.ofItems [.bool true, .null, .bool false]) = .ok (.json .null) := by
  have hnull : FirstUnbeaten Value.lt [.bool true, .null, .bool false] 1 .null :=
    ⟨rfl, by decide +kernel, by decide +kernel⟩
  exact ⟨hnull, (returns_first_unbeaten_iff .least hnull).2 (.inr (by decide))⟩

/-- A text that is no number is beaten by no number, and beats none. -/
theorem min_passes_over :
    FirstUnbeaten Value.lt [.num (.int 5), .str "x", .num (.int 3)] 1 (.str "x") ∧
      Aggregate.min.apply (.ofItems [.num (.int 5), .str "x", .num (.int 3)]) =
        .ok (.json (.num (.int 3))) :=
  ⟨⟨rfl, by decide +kernel, by decide +kernel⟩, rfl⟩

end Aggregate

end DocumentRules
