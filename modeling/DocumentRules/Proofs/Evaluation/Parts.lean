import DocumentRules.Proofs.Evaluation.Indices

/-!
# Slices and splices

Which items a slice has is said here by their positions alone (`between`). The positions are
integers, so that nothing is cut off at zero unseen. The main statement, `slice_and_splice`, holds
for operands of every sort as far as the bounds go, and gives the items for indices of any size and
of either sign, with or without a fraction.
-/

set_option autoImplicit false

namespace DocumentRules

/-! ## Positions -/

/-- The items at the positions from the first one up to the last, which is left out. -/
def between (items : List Json) (first last : ℤ) : List Json :=
  (items.zipIdx.filter fun (_, i) => first ≤ i ∧ i < last).map Prod.fst

section

variable {α : Type}

theorem filter_zipIdx_below (items : List α) (stop k : ℕ) :
    (items.zipIdx k).filter (fun p => p.2 < stop + k) = (items.take stop).zipIdx k := by
  induction items generalizing stop k with
  | nil => simp
  | cons item rest ih =>
    cases stop with
    | zero =>
      rw [List.take_zero, List.zipIdx_nil, List.filter_eq_nil_iff]
      intro p hp
      have hk := List.le_snd_of_mem_zipIdx hp
      simpa using hk
    | succ stop =>
      have hrest := ih stop (k + 1)
      rw [← Nat.add_assoc, Nat.add_right_comm] at hrest
      rw [List.zipIdx_cons, List.filter_cons_of_pos (by simp), hrest, List.take_succ_cons,
        List.zipIdx_cons]

theorem filter_zipIdx_from (items : List α) (start k : ℕ) :
    (items.zipIdx k).filter (fun p => start + k ≤ p.2) =
      (items.drop start).zipIdx (start + k) := by
  induction items generalizing start k with
  | nil => simp
  | cons item rest ih =>
    cases start with
    | zero =>
      rw [Nat.zero_add, List.drop_zero, List.filter_eq_self]
      intro p hp
      exact decide_eq_true (List.le_snd_of_mem_zipIdx hp)
    | succ start =>
      have hrest := ih start (k + 1)
      rw [← Nat.add_assoc, Nat.add_right_comm] at hrest
      rw [List.zipIdx_cons, List.filter_cons_of_neg (by simp), hrest, List.drop_succ_cons]

end

theorem between_eq (items : List Json) (start stop : ℕ) :
    between items start stop = (items.take stop).drop start := by
  have hbelow := filter_zipIdx_below items stop 0
  have hfrom := filter_zipIdx_from (items.take stop) start 0
  rw [← hbelow, List.filter_filter] at hfrom
  unfold between
  rw [← List.zipIdx_map_fst start ((items.take stop).drop start)]
  congr 1
  simpa using hfrom

/-! ## The items -/

theorem slice?_ofItems (items : List Json) (first last : Option Json) :
    slice? first last (.ofItems items) =
      (sliceBounds items.length first last).map fun bounds =>
        (sliced? items bounds).map .ofItems := by
  show (sliceBounds items.length first last >>= _) = _
  cases sliceBounds items.length first last <;> rfl

theorem splice?_ofItems (items : List Json) (first : Json) (deleted inserted : Option Json) :
    splice? (some first) deleted inserted (.ofItems items) = (do
      let start ← positionField "splice" "startIndex" items.length first
      let some count ← deletedCount items.length start deleted | return none
      let added ← insertedItems inserted
      return (exchange? items start (start + count) added).map .ofItems) :=
  rfl

/-- What stands between two bounds in the array, in whichever order they are. -/
theorem sliced?_eq {items : List Json} {stop : ℕ} (hstop : stop ≤ items.length) (start : ℕ) :
    sliced? items (start, stop) = some (between items start stop) := by
  rw [between_eq]
  by_cases hlt : start < stop
  · exact (if_pos hlt).trans (if_pos ⟨hlt.le, hstop⟩)
  · have hlength : (items.take stop).length ≤ start :=
      (List.length_take_le _ _).trans (Nat.le_of_not_lt hlt)
    rw [List.drop_eq_nil_of_le hlength]
    exact if_neg hlt

section

variable (items : List Json)

theorem slice?_from (x : Number) :
    slice? (some (.num x)) none (.ofItems items) =
      .ok (some (.ofItems (items.drop (position items.length x.toFloat)))) := by
  have hbounds : sliceBounds items.length (some (.num x)) none =
    .ok (position items.length x.toFloat, items.length) := rfl
  rw [slice?_ofItems, hbounds, Except.map, sliced?_eq (Nat.le_refl _), Option.map_some, between_eq,
    List.take_length]

theorem splice?_eq (x : Number) {count : Option Number} {taken : ℕ}
    (htaken : deletedCount items.length (position items.length x.toFloat) (count.map .num) =
      .ok (some taken)) (hend : position items.length x.toFloat + taken ≤ items.length)
    (added : Option (List Json)) :
    splice? (some (.num x)) (count.map .num) (added.map .arr) (.ofItems items) =
      .ok (some (.ofItems
        (between items 0 (position items.length x.toFloat) ++ added.getD [] ++
          between items (position items.length x.toFloat + taken : ℕ) items.length))) := by
  have hadded : insertedItems (added.map .arr) = .ok (added.getD []) := by cases added <;> rfl
  have hposition : positionField "splice" "startIndex" items.length (.num x) =
    .ok (position items.length x.toFloat) := rfl
  have hfront := between_eq items 0 (position items.length x.toFloat)
  have hback := between_eq items (position items.length x.toFloat + taken) items.length
  rw [Nat.cast_zero, List.drop_zero] at hfront
  rw [List.take_length] at hback
  rw [splice?_ofItems, hposition, hfront, hback]
  show (deletedCount items.length (position items.length x.toFloat) (count.map .num) >>= _) = _
  rw [htaken]
  show (insertedItems (added.map .arr) >>= _) = _
  rw [hadded]
  exact congrArg (fun part => Except.ok (Option.map Value.ofItems part))
    (if_pos ⟨Nat.le_add_right _ _, hend⟩)

variable {items} (h : items.length < 2 ^ 53)

include h

/-- A slice is never stopped, whatever its operands are. -/
theorem slice?_ne_stopped (first last : Option Json) :
    slice? first last (.ofItems items) ≠ .ok none := by
  rw [slice?_ofItems]
  cases hbounds : sliceBounds items.length first last with
  | error fault =>
    intro hstopped
    cases hstopped
  | ok bounds =>
    intro hstopped
    obtain ⟨start, stop⟩ := bounds
    have hpart : (sliced? items (start, stop)).map Value.ofItems = none := Except.ok.inj hstopped
    rw [sliced?_eq (sliceBounds_le h hbounds).2] at hpart
    cases hpart

/-- A splice is never stopped, whatever its operands are. -/
theorem splice?_ne_stopped (first deleted inserted : Option Json) :
    splice? first deleted inserted (.ofItems items) ≠ .ok none := by
  intro hstopped
  cases first with
  | none => cases hstopped
  | some first =>
    rw [splice?_ofItems] at hstopped
    obtain ⟨start, hstart, hrest⟩ := bind_eq_ok.mp hstopped
    have hin := positionField_le h hstart
    obtain ⟨taken, htaken, hrest⟩ := bind_eq_ok.mp hrest
    obtain ⟨n, rfl, hend⟩ := deletedCount_le h hin htaken
    obtain ⟨added, -, hpart⟩ := bind_eq_ok.mp hrest
    have hrange : exchange? items start (start + n) added = some _ :=
      if_pos ⟨Nat.le_add_right _ _, hend⟩
    have hnone := Except.ok.inj hpart
    rw [hrange] at hnone
    cases hnone

theorem slice?_eq (x y : Number) :
    slice? (some (.num x)) (some (.num y)) (.ofItems items) =
      .ok (some (.ofItems (between items (clampedIndex items.length x.value)
        (clampedIndex items.length y.value)))) := by
  have hbounds : sliceBounds items.length (some (.num x)) (some (.num y)) =
    .ok (position items.length x.toFloat, position items.length y.toFloat) := rfl
  rw [slice?_ofItems, hbounds, ← position_eq h, ← position_eq h, Except.map,
    sliced?_eq (position_le h y), Option.map_some]

theorem slice?_upTo (x : Number) :
    slice? (some (Json.ofInt 0)) (some (.num x)) (.ofItems items) =
      .ok (some (.ofItems (items.take (position items.length x.toFloat)))) := by
  have hslice := slice?_eq h (.int 0) x
  have hzero : clampedIndex items.length (Number.value (.int 0)) = (0 : ℕ) := by
    show clampedIndex items.length ((0 : ℤ) : ℚ) = _
    rw [clampedIndex, wholePart_intCast]
    simp
  rw [hzero, ← position_eq h, between_eq, List.drop_zero] at hslice
  exact hslice

end

/-- **Slices and splices keep to the array.** Take an array of fewer than `2 ^ 53` items. Whatever
the operands are, the bounds of a slice lie in it, and neither a slice nor a splice asks for a range
that it does not have. An index that is a number points to a position from none to all of the items,
and that is where its value points. A slice between two indices has the items at the positions
between, so that what is in front of a position and what is behind it make up the array. A splice
keeps what is in front of its position, puts the new items there, and goes on behind those it takes
out; there are never more of these than follow the position. -/
theorem slice_and_splice (items : List Json) (h : items.length < 2 ^ 53) :
    (∀ (first last : Option Json) (bounds : ℕ × ℕ),
      sliceBounds items.length first last = .ok bounds →
        bounds.1 ≤ items.length ∧ bounds.2 ≤ items.length) ∧
    (∀ first last : Option Json, slice? first last (.ofItems items) ≠ .ok none) ∧
    (∀ first deleted inserted : Option Json,
      splice? first deleted inserted (.ofItems items) ≠ .ok none) ∧
    ∀ x : Number,
      let start := position items.length x.toFloat
      ((start : ℤ) = clampedIndex items.length x.value ∧ start ≤ items.length) ∧
      (∀ y : Number,
        let part := Value.ofItems (between items (clampedIndex items.length x.value)
          (clampedIndex items.length y.value))
        slice? (some (.num x)) (some (.num y)) (.ofItems items) = .ok (some part) ∧
          slice (some (.num x)) (some (.num y)) (.ofItems items) = .ok part) ∧
      (∃ front back,
        slice (some (Json.ofInt 0)) (some (.num x)) (.ofItems items) = .ok (.ofItems front) ∧
          slice (some (.num x)) none (.ofItems items) = .ok (.ofItems back) ∧
            front ++ back = items) ∧
      ∀ (count : Option Number) (added : Option (List Json)), ∃ taken : ℕ,
        deletedCount items.length start (count.map .num) = .ok (some taken) ∧
        (taken : ℤ) = takenOut items.length start (count.map Number.value) ∧
        start + taken ≤ items.length ∧
        let whole := Value.ofItems (between items 0 start ++ added.getD [] ++
          between items (start + taken) items.length)
        splice? (some (.num x)) (count.map .num) (added.map .arr) (.ofItems items) =
            .ok (some whole) ∧
          splice (some (.num x)) (count.map .num) (added.map .arr) (.ofItems items) =
            .ok whole := by
  refine ⟨fun first last bounds hbounds => sliceBounds_le h hbounds, slice?_ne_stopped h,
    splice?_ne_stopped h, fun x => ?_⟩
  have hin := position_le h x
  refine ⟨⟨position_eq h x, hin⟩, fun y => ?_, ?_, fun count added => ?_⟩
  · have hslice := slice?_eq h x y
    exact ⟨hslice, congrArg orStopped hslice⟩
  · have hfront := slice?_upTo h x
    have hback := slice?_from items x
    exact ⟨_, _, congrArg orStopped hfront, congrArg orStopped hback, List.take_append_drop _ _⟩
  · obtain ⟨taken, hcount, htaken⟩ := exists_deletedCount h hin count
    obtain ⟨n, hn, hend⟩ := deletedCount_le h hin hcount
    obtain rfl := Option.some.inj hn
    have hsplice := splice?_eq items x hcount hend added
    rw [Nat.cast_add] at hsplice
    exact ⟨taken, hcount, htaken, hend, hsplice, congrArg orStopped hsplice⟩

/-- An index from the end with a fraction, and a count far beyond the array and all doubles that are
exact. -/
theorem splice_fromEnd :
    let items : List Json := [.null, .bool true, .str "last"]
    items.length < 2 ^ 53 ∧
      splice (some (.num (.double (-1.5) rfl))) (some (Json.ofInt (10 ^ 30)))
        (some (.arr [.str "new"])) (.ofItems items) =
          .ok (.ofItems [.null, .bool true, .str "new"]) := by
  have hlength : [Json.null, .bool true, .str "last"].length < 2 ^ 53 := by decide
  refine ⟨hlength, ?_⟩
  obtain ⟨-, -, -, hindex⟩ := slice_and_splice _ hlength
  obtain ⟨-, -, -, hsplice⟩ := hindex (.double (-1.5) rfl)
  obtain ⟨taken, -, htaken, -, -, hresult⟩ := hsplice (some (.int (10 ^ 30))) (some [.str "new"])
  have hstart : position 3 (-1.5) = 2 := by decide +kernel
  have hvalue : takenOut 3 2 (some ((10 ^ 30 : ℤ) : ℚ)) = 1 := by
    rw [takenOut, wholePart_intCast]
    decide
  change (taken : ℤ) = takenOut 3 (position 3 (-1.5) : ℕ) (some ((10 ^ 30 : ℤ) : ℚ)) at htaken
  rw [hstart] at htaken
  obtain rfl : taken = 1 := by exact_mod_cast htaken.trans hvalue
  refine hresult.trans ?_
  show Except.ok (Value.ofItems (between _ _ (position 3 (-1.5) : ℕ) ++ [.str "new"] ++
    between _ ((position 3 (-1.5) : ℕ) + 1) 3)) = _
  rw [hstart]
  rfl

end DocumentRules
