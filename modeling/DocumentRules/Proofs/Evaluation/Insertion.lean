import DocumentRules.Evaluation.Sort
import Mathlib.Data.List.Chain
import Mathlib.Data.List.Sort

/-!
# Insertion without an order

Sorting is by insertion, and the comparison is whatever it is. For a comparison that cannot fail the
algorithm is the insertion sort of the library, run from the other end: the elements that are placed
are held last first, and so `arranged` reverses twice. What the library proves of it asks for a
total and transitive order, which no order of values is. Two weaker laws are enough here.

Neighbours are in order if no two elements belong behind each other (`arranged_isChain`): where an
element stops, it has been compared with both that it now stands between, and a comparison says
nothing about any other two.

All elements are in order, as some relation wants them, if that is transitive among them and each
comparison *that can be made* decides it (`arranged_pairwise`). The comparisons that can be made are
of an element with earlier ones. That is how an order may depend on the places before sorting and
the comparison still need not look at them.
-/

set_option autoImplicit false

namespace DocumentRules

variable {α : Type}

/-- The elements as sorting arranges them, for a comparison that cannot fail. -/
def arranged (behind : α → α → Bool) (xs : List α) : List α :=
  (xs.reverse.insertionSort fun x last => behind last x = false).reverse

section Computing

variable {m : Type → Type} [Monad m] [LawfulMonad m] {comesAfter : α → α → m Bool}
  {behind : α → α → Bool}

theorem insertBehind_eq (h : ∀ a b, comesAfter a b = pure (behind a b)) (x : α)
    (placed : List α) :
    insertBehind comesAfter x placed =
      pure (placed.orderedInsert (fun x last => behind last x = false) x) := by
  induction placed with
  | nil => rfl
  | cons last before ih =>
    rw [insertBehind, h, pure_bind, List.orderedInsert_cons]
    cases behind last x with
    | true => simp only [if_true, ih, pure_bind, Bool.true_eq_false, if_false]
    | false => simp only [Bool.false_eq_true, if_false, if_true]

theorem placeAll_eq (h : ∀ a b, comesAfter a b = pure (behind a b)) (xs : List α) :
    ∀ placed : List α, placeAll comesAfter xs placed =
      pure (xs.foldl (fun placed x =>
        placed.orderedInsert (fun x last => behind last x = false) x) placed) := by
  induction xs with
  | nil =>
    intro placed
    rfl
  | cons x rest ih =>
    intro placed
    rw [placeAll, insertBehind_eq h, pure_bind, ih, List.foldl_cons]

/-- Sorting succeeds if its comparison does. -/
theorem insertionSort_eq (h : ∀ a b, comesAfter a b = pure (behind a b)) (xs : List α) :
    insertionSort comesAfter xs = pure (arranged behind xs) := by
  rw [insertionSort, placeAll_eq h, pure_bind, arranged, List.insertionSort, List.foldr_reverse]

end Computing

section Placing

variable {r q : α → α → Prop} [DecidableRel r]

theorem isChain_orderedInsert (htotal : ∀ a b, ¬ r a b → r b a) (x : α) {l : List α}
    (h : l.IsChain r) : (l.orderedInsert r x).IsChain r := by
  induction l with
  | nil => exact .singleton x
  | cons y l ih =>
    obtain ⟨hhead, htail⟩ := List.isChain_cons.mp h
    rw [List.orderedInsert_cons]
    split
    · next hxy => exact h.cons_cons hxy
    · next hxy =>
      refine (ih htail).cons fun z hz => ?_
      -- Behind `y` stands now what has been there, or the new element.
      cases l with
      | nil =>
        cases hz
        exact htotal x y hxy
      | cons first rest =>
        rw [List.orderedInsert_cons] at hz
        split at hz
        · cases hz
          exact htotal x y hxy
        · exact hhead z hz

theorem pairwise_orderedInsert {x : α} {l : List α} (h : l.Pairwise q)
    (hx : ∀ y ∈ l, (r x y → q x y) ∧ (¬ r x y → q y x))
    (htrans : ∀ y ∈ l, ∀ z ∈ l, q x y → q y z → q x z) : (l.orderedInsert r x).Pairwise q := by
  induction l with
  | nil => exact List.pairwise_singleton q x
  | cons y l ih =>
    obtain ⟨hy, hl⟩ := List.pairwise_cons.mp h
    obtain ⟨hbefore, hbehind⟩ := hx y List.mem_cons_self
    rw [List.orderedInsert_cons]
    split
    · next hxy =>
      refine List.pairwise_cons.mpr ⟨fun z hz => ?_, h⟩
      rcases List.mem_cons.mp hz with rfl | hz
      · exact hbefore hxy
      · exact htrans y List.mem_cons_self z (.tail y hz) (hbefore hxy) (hy z hz)
    · next hxy =>
      refine List.pairwise_cons.mpr ⟨fun z hz => ?_, ih hl ?_ ?_⟩
      · rcases (List.mem_orderedInsert r).mp hz with rfl | hz
        · exact hbehind hxy
        · exact hy z hz
      · exact fun z hz => hx z (.tail y hz)
      · exact fun z hz w hw => htrans z (.tail y hz) w (.tail y hw)

theorem pairwise_insertionSort_of {l : List α}
    (h : l.Pairwise fun x y => (r x y → q x y) ∧ (¬ r x y → q y x))
    (htrans : ∀ a ∈ l, ∀ b ∈ l, ∀ c ∈ l, q a b → q b c → q a c) :
    (l.insertionSort r).Pairwise q := by
  induction l with
  | nil => exact .nil
  | cons x rest ih =>
    obtain ⟨hx, hrest⟩ := List.pairwise_cons.mp h
    have hmem : ∀ y ∈ rest.insertionSort r, y ∈ rest := fun y => (List.mem_insertionSort r).mp
    rw [List.insertionSort_cons]
    refine pairwise_orderedInsert (ih hrest ?_) ?_ ?_
    · exact fun a ha b hb c hc => htrans a (.tail x ha) b (.tail x hb) c (.tail x hc)
    · exact fun y hy => hx y (hmem y hy)
    · exact fun y hy z hz =>
        htrans x List.mem_cons_self y (.tail x (hmem y hy)) z (.tail x (hmem z hz))

end Placing

section Arranging

variable {behind : α → α → Bool}

theorem arranged_perm (behind : α → α → Bool) (xs : List α) : (arranged behind xs).Perm xs :=
  (List.reverse_perm _).trans ((List.perm_insertionSort _ _).trans (List.reverse_perm _))

theorem arranged_isChain (hasymm : ∀ a b, behind a b = true → behind b a = false) (xs : List α) :
    (arranged behind xs).IsChain fun a b => behind a b = false := by
  rw [arranged, List.isChain_reverse]
  induction xs.reverse with
  | nil => exact .nil
  | cons x rest ih =>
    exact isChain_orderedInsert (fun a b h => hasymm b a (Bool.eq_true_of_not_eq_false h)) x ih

theorem arranged_pairwise {before : α → α → Prop} {xs : List α}
    (h : xs.Pairwise fun a b =>
      (behind a b = true → before b a) ∧ (behind a b = false → before a b))
    (htrans : ∀ a ∈ xs, ∀ b ∈ xs, ∀ c ∈ xs, before a b → before b c → before a c) :
    (arranged behind xs).Pairwise before := by
  rw [arranged, List.pairwise_reverse]
  refine pairwise_insertionSort_of ?_ ?_
  · rw [List.pairwise_reverse]
    refine h.imp fun hab => ⟨hab.2, fun hbehind => ?_⟩
    exact hab.1 (Bool.eq_true_of_not_eq_false hbehind)
  · intro a ha b hb c hc hba hcb
    rw [List.mem_reverse] at ha hb hc
    exact htrans c hc b hb a ha hcb hba

end Arranging

end DocumentRules
