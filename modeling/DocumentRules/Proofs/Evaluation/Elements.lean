import DocumentRules.Proofs.Evaluation.Step
import Mathlib.Data.List.Basic

/-!
# Going through an array

Filtering and mapping run a sequence of rules for every element of an array, and these rules may
write to the array itself: they may add to it, shorten it, or put something else in its place. None
of that changes which elements are gone through. The array is the one that was read when the rule
began. Each of its elements is started with once, in order, as it was then. What the rules do see is
what has been written: a sequence runs in the documents that those before it have left.

`Rule.Through` says this of the sequences, with the sessions between them, and a loop over the
elements succeeds exactly if there are such sessions (`eachElement_eq_ok`). What mapping and
filtering make of the results is said by position (`Rule.inspect_elements`).
-/

set_option autoImplicit false

namespace DocumentRules

/-! ## A step for every element -/

section

variable {α : Type} {step : Nat → Json → Run α}

/-- A loop over the elements succeeds if the step for each of them does, in the session that the
steps before it have left. -/
theorem eachElement_eq_ok {items : List Json} :
    ∀ {i : Nat} {s t : Session} {results : List α},
      (eachElement step i items).on s = (.ok results, t) ↔
        results.length = items.length ∧
          ∃ sessions : Nat → Session, sessions 0 = s ∧ sessions items.length = t ∧
            ∀ j element, items[j]? = some element → ∃ result, results[j]? = some result ∧
              (step (i + j) element).on (sessions j) = (.ok result, sessions (j + 1)) := by
  induction items with
  | nil =>
    intro i s t results
    rw [eachElement, Run.on_pure_eq_ok]
    constructor
    · rintro ⟨rfl, rfl⟩
      exact ⟨rfl, fun _ => s, rfl, rfl, fun j element hj => absurd hj (by simp)⟩
    · rintro ⟨hlength, sessions, rfl, rfl, -⟩
      exact ⟨(List.eq_nil_of_length_eq_zero hlength).symm, rfl⟩
  | cons first rest ih =>
    intro i s t results
    -- The position of an element in the rest of the array is one less than in the array.
    have hshift : ∀ j, i + 1 + j = i + (j + 1) := fun j => by omega
    rw [eachElement, Run.on_bind_eq_ok]
    constructor
    · rintro ⟨result, u, hfirst, hrest⟩
      obtain ⟨others, v, hothers, hpure⟩ := Run.on_bind_eq_ok.mp hrest
      obtain ⟨rfl, rfl⟩ := Run.on_pure_eq_ok.mp hpure
      obtain ⟨hlength, sessions, hstart, hend, hsteps⟩ := ih.mp hothers
      refine ⟨congrArg Nat.succ hlength, fun j => j.casesOn s sessions, rfl, hend, ?_⟩
      intro j element hj
      cases j with
      | zero =>
        cases hj
        rw [← hstart] at hfirst
        exact ⟨result, rfl, hfirst⟩
      | succ j =>
        obtain ⟨other, hother, hstep⟩ := hsteps j element hj
        rw [hshift] at hstep
        exact ⟨other, hother, hstep⟩
    · rintro ⟨hlength, sessions, rfl, rfl, hsteps⟩
      obtain ⟨result, hresult, hfirst⟩ := hsteps 0 first rfl
      cases results with
      | nil => cases hresult
      | cons head others =>
        cases hresult
        refine ⟨result, sessions 1, hfirst, Run.on_bind_eq_ok.mpr ⟨others, _, ih.mpr ?_, rfl⟩⟩
        refine ⟨Nat.succ.inj hlength, fun j => sessions (j + 1), rfl, rfl, ?_⟩
        intro j element hj
        rw [hshift]
        exact hsteps (j + 1) element hj

end

/-! ## What is made of the results -/

namespace Inspection

/-- A mapped array has the results in place of the elements. -/
theorem getElem?_collect_map {items : List Json} {results : List Value} {i : Nat} {result : Value}
    (h : results[i]? = some result) : (map.collect items results)[i]? = some result.toJson := by
  rw [collect, List.getElem?_map, h]
  rfl

/-- A filtered array has the elements that stand where the results are true. -/
theorem collect_filter : ∀ {items : List Json} {results : List Value},
    results.length = items.length →
      (filter.collect items results).map some = (results.findIdxs Value.truthy).map (items[·]?)
  | [], [], _ => rfl
  | item :: items, result :: results, h => by
    have ih := collect_filter (Nat.succ.inj h)
    have hshift : ((results.findIdxs Value.truthy 1).map ((item :: items)[·]?)) =
        (results.findIdxs Value.truthy).map (items[·]?) := by
      rw [List.findIdxs_start, List.map_map]
      rfl
    rw [List.findIdxs_cons]
    unfold collect at ih ⊢
    rw [List.zip_cons_cons, List.filter_cons]
    dsimp only at ih ⊢
    split
    · rw [List.map_cons, List.map_cons, List.map_cons, ih, hshift]
      rfl
    · rw [ih, hshift]

/-- What filtering keeps stands at the positions of the true results, and these are in order. -/
theorem positions_of_filter {items : List Json} {results : List Value}
    (h : results.length = items.length) :
    ∃ positions : List Nat, positions.Pairwise (· < ·) ∧
      (∀ i, i ∈ positions ↔ ∃ result, results[i]? = some result ∧ result.truthy = true) ∧
      (filter.collect items results).map some = positions.map (items[·]?) := by
  refine ⟨results.findIdxs Value.truthy, List.pairwise_findIdxs, ?_, collect_filter h⟩
  intro i
  rw [List.mem_findIdxs_iff_exists_getElem_pos]
  simp only [List.getElem?_eq_some_iff]
  constructor
  · rintro ⟨hi, htrue⟩
    exact ⟨results[i], ⟨hi, rfl⟩, htrue⟩
  · rintro ⟨_, ⟨hi, rfl⟩, htrue⟩
    exact ⟨hi, htrue⟩

end Inspection

/-- Carrying a value, a point stands where it stood. -/
theorem Point.carrying_in_place (p : Point) (value : Option Json) :
    (p.carrying value).keys = p.keys ∧ (p.carrying value).path = p.path ∧
      (p.carrying value).parent? = p.parent? ∧ ∀ doc, (p.carrying value).value? doc = value := by
  cases p with
  | root origin => exact ⟨rfl, rfl, rfl, fun _ => rfl⟩
  | step parent key path origin => exact ⟨rfl, rfl, rfl, fun _ => rfl⟩

/-! ## Filtering and mapping -/

/-- Rules have run through the elements of an array that was read: for each element once, in order,
started with the element as it was read, in the session that was left by those before. -/
structure Rule.Through (rules : List Rule) (r : Reading) (items : List Json)
    (sessions : Nat → Session) (results : List Value) : Prop where
  length : results.length = items.length
  element : ∀ i element, items[i]? = some element → ∃ result, results[i]? = some result ∧
    (Run.inSameDocument (Rule.runSteps rules (r.elementPoint i element) (.json element))).on
      (sessions i) = (.ok result, sessions (i + 1))

theorem arrayFor_eq_ok {operator : String} {value : Value} {items : List Json} :
    arrayFor operator value = .ok items ↔ value = .ofItems items := by
  unfold arrayFor Value.ofItems
  cases value with
  | undefined => simp [Value.items?]
  | json json => cases json <;> simp [Value.items?, eq_comm]

theorem Action.run_inspect_eq_ok {operator : Inspection} {rules : List Rule} {r : Reading}
    {s t : Session} {o : Outcome} :
    (Action.run (.inspect operator (some rules)) r).on s = (.ok o, t) ↔
      ∃ items sessions results, r.value = .ofItems items ∧ sessions 0 = s ∧
        sessions items.length = t ∧ Rule.Through rules r items sessions results ∧
        o = ⟨.ofItems (operator.collect items results),
          some (r.point.carrying (some (.arr (operator.collect items results))))⟩ := by
  simp only [Action.run]
  constructor
  · intro h
    obtain ⟨items, s', hitems, h⟩ := Run.on_bind_eq_ok.mp h
    obtain ⟨hvalue, rfl⟩ := Run.on_ofExcept_eq_ok.mp hitems
    obtain ⟨results, t', hresults, h⟩ := Run.on_bind_eq_ok.mp h
    obtain ⟨rfl, rfl⟩ := Run.on_pure_eq_ok.mp h
    obtain ⟨hlength, sessions, hstart, hend, hsteps⟩ := eachElement_eq_ok.mp hresults
    simp only [Nat.zero_add] at hsteps
    exact ⟨items, sessions, results, arrayFor_eq_ok.mp hvalue, hstart, hend, ⟨hlength, hsteps⟩, rfl⟩
  · rintro ⟨items, sessions, results, hvalue, hstart, hend, hthrough, rfl⟩
    have hsteps := hthrough.element
    rw [Run.on_bind_eq_ok]
    refine ⟨items, s, Run.on_ofExcept_eq_ok.mpr ⟨arrayFor_eq_ok.mpr hvalue, rfl⟩, ?_⟩
    rw [Run.on_bind_eq_ok]
    refine ⟨results, t, eachElement_eq_ok.mpr ?_, rfl⟩
    simp only [Nat.zero_add]
    exact ⟨hthrough.length, sessions, hstart, hend, hsteps⟩

/-- **Filtering and mapping go through the array that was read.** Such a rule succeeds exactly if it
can read an array and its rules run through the elements. Then mapping gives as many elements as the
array has had, each the result for the element at its position, with null for nothing; filtering
gives the elements of the array whose results are true, unchanged and in their order. The point that
is handed on carries what was made, and stands where the array was found. -/
theorem Rule.inspect_elements (operator : Inspection) (rules : List Rule) (own : Option String)
    (point : Option Point) (cascade : Value) (s t : Session) :
    (∀ o,
      (Rule.run (.action own (.inspect operator (some rules))) point cascade).on s = (.ok o, t) →
      ∃ (r : Reading) (items : List Json) (sessions : Nat → Session) (results : List Value)
        (out : List Json),
        (takeReading own point cascade).on s = (.ok r, sessions 0) ∧ r.value = .ofItems items ∧
        Through rules r items sessions results ∧ sessions items.length = t ∧
        o.value = .ofItems out ∧
        (operator = .map → out.length = items.length ∧
          ∀ (i : Nat) (result : Value), results[i]? = some result →
            out[i]? = some result.toJson) ∧
        (operator = .filter → ∃ positions : List Nat, positions.Pairwise (· < ·) ∧
          (∀ i, i ∈ positions ↔ ∃ result, results[i]? = some result ∧ result.truthy = true) ∧
          out.map some = positions.map (items[·]?)) ∧
        ∃ p, o.point = some p ∧ p.keys = r.point.keys ∧ p.path = r.point.path ∧
          p.parent? = r.point.parent? ∧ ∀ doc, p.value? doc = some (.arr out)) ∧
    (∀ r items sessions results,
      (takeReading own point cascade).on s = (.ok r, sessions 0) → r.value = .ofItems items →
        Through rules r items sessions results → sessions items.length = t →
          ∃ o, (Rule.run (.action own (.inspect operator (some rules))) point cascade).on s =
            (.ok o, t)) := by
  constructor
  · intro o h
    simp only [Rule.run] at h
    obtain ⟨r, u, hr, h⟩ := Run.on_bind_eq_ok.mp h
    obtain ⟨items, sessions, results, hvalue, rfl, hend, hthrough, rfl⟩ :=
      Action.run_inspect_eq_ok.mp h
    refine ⟨r, items, sessions, results, _, hr, hvalue, hthrough, hend, rfl, ?_, ?_, ?_⟩
    · intro hmap
      subst hmap
      refine ⟨?_, fun i result => Inspection.getElem?_collect_map⟩
      rw [Inspection.collect, List.length_map, hthrough.length]
    · intro hfilter
      subst hfilter
      exact Inspection.positions_of_filter hthrough.length
    · obtain ⟨hkeys, hpath, hparent, hcarried⟩ := r.point.carrying_in_place
        (some (.arr (operator.collect items results)))
      exact ⟨_, rfl, hkeys, hpath, hparent, hcarried⟩
  · intro r items sessions results hr hvalue hthrough hend
    have hrun : ∃ o, (Action.run (.inspect operator (some rules)) r).on (sessions 0) = (.ok o, t) :=
      ⟨_, Action.run_inspect_eq_ok.mpr
        ⟨items, sessions, results, hvalue, rfl, hend, hthrough, rfl⟩⟩
    obtain ⟨o, hrun⟩ := hrun
    simp only [Rule.run]
    exact ⟨o, Run.on_bind_eq_ok.mpr ⟨r, sessions 0, hr, hrun⟩⟩

/-- Keeps the elements of an array that are true, and empties the array at every one of them. -/
def Rule.emptying : Rule :=
  .action (some "/x")
    (.inspect .filter (some [.action none (.set ".." (some (.literal (.arr []))))]))

/-- One document with an array. -/
def Session.holdingItems (items : List Json) : Session where
  documents := ⟨"D", [("$vars", .obj []), ("D", .obj [("$id", .str "D"), ("x", .arr items)])]⟩
  current := "D"

/-- The array is empty when the sequence of the second element begins, and the third element is kept
all the same. -/
theorem Rule.emptying_elements :
    ∃ o t, (Rule.emptying.run none .undefined).on
        (.holdingItems [.bool true, .bool false, .str "a"]) = (.ok o, t) ∧
      t = .holdingItems [] ∧ o.value = .ofItems [.bool true, .str "a"] ∧
      ∃ sessions results, Through [.action none (.set ".." (some (.literal (.arr []))))]
          ⟨.ofItems [.bool true, .bool false, .str "a"], Point.documentRoot.child "x", true⟩
          [.bool true, .bool false, .str "a"] sessions results ∧ sessions 3 = t := by
  have hrun : (Rule.emptying.run none .undefined).on
      (.holdingItems [.bool true, .bool false, .str "a"]) =
        (.ok ⟨.ofItems [.bool true, .str "a"], some ((Point.documentRoot.child "x").carrying
          (some (.arr [.bool true, .str "a"])))⟩, .holdingItems []) := rfl
  obtain ⟨r, items, sessions, results, out, hr, hitems, hthrough, hend, -⟩ :=
    (Rule.inspect_elements .filter _ (some "/x") none .undefined _ _).1 _ hrun
  have hread := congrArg Prod.fst hr
  cases hread
  cases hitems
  exact ⟨_, _, hrun, rfl, rfl, sessions, results, hthrough, hend⟩

end DocumentRules
