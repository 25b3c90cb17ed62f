import DocumentRules.Proofs.Evaluation.Elements
import DocumentRules.Proofs.Evaluation.Insertion
import DocumentRules.Proofs.Value.Order

/-!
# Sorting

An array is sorted by the keys that rules find for its elements, and the keys may be anything. For
keys of every sort together there is little that can be promised: the result has the elements of the
array, and of two *neighbours* none belongs behind the other (`Rule.sort_neighbours`). More would be
wrong, since an element may come to stand behind a greater one with an incomparable one between
them. That much needs no more of the order than that two keys are not both less than each other.

For keys of one sort, texts or numbers, the order is linear, and there is one result for each of the
four orders (`Rule.sort_alike_keys`). Which it is depends on the ties. Two of the orders do not look
at the places before sorting, and equal keys keep their places because an element is only ever
compared with earlier ones. The other two do look at them, and turn ties around. So each order has
an opposite that gives the reverse, and it is not the one that looks the most like it: the opposite
of going up is going down with the ties reversed.
-/

set_option autoImplicit false

namespace DocumentRules

/-! ## Comparing elements -/

/-- The order of two values from either side. -/
theorem Value.ordering_swap (a b : Value) : (a.ordering b).swap = b.ordering a := by
  unfold ordering
  rw [gt_eq_lt, gt_eq_lt]
  cases hab : a.lt b with
  | true => simp only [lt_asymm hab, if_true, Bool.false_eq_true, if_false, Ordering.swap]
  | false =>
    cases b.lt a <;> simp only [if_true, Bool.false_eq_true, if_false, Ordering.swap]

namespace SortOrder

/-- Whether one element belongs behind another. -/
def behind (order : SortOrder) (a b : Keyed) : Bool :=
  order.compare a b == .gt

theorem compare_swap (order : SortOrder) (a b : Keyed) :
    (order.compare a b).swap = order.compare b a := by
  cases order with
  | ascending | descending => exact Value.ordering_swap _ _
  | ascendingTiesReversed | descendingTiesReversed =>
    unfold compare
    rw [Ordering.swap_then, Value.ordering_swap, Nat.compare_swap]

/-- Of two elements at most one belongs behind the other. -/
theorem behind_asymm {order : SortOrder} {a b : Keyed} (h : order.behind a b = true) :
    order.behind b a = false := by
  unfold behind at h ⊢
  rw [← order.compare_swap a b, beq_iff_eq.mp h]
  rfl

/-- `a` has to stand in front of `b`: by the keys in the direction of the order, and where they are
equal by the places before sorting. -/
def Precedes (order : SortOrder) (a b : Keyed) : Prop :=
  match order with
  | .ascending => a.key.lt b.key = true ∨ a.key.strictEq b.key = true ∧ a.place < b.place
  | .descending => b.key.lt a.key = true ∨ a.key.strictEq b.key = true ∧ a.place < b.place
  | .ascendingTiesReversed =>
    a.key.lt b.key = true ∨ a.key.strictEq b.key = true ∧ b.place < a.place
  | .descendingTiesReversed =>
    b.key.lt a.key = true ∨ a.key.strictEq b.key = true ∧ b.place < a.place

/-- The order that wants everything the other way round. -/
def opposite : SortOrder → SortOrder
  | .ascending => .descendingTiesReversed
  | .descending => .ascendingTiesReversed
  | .ascendingTiesReversed => .descending
  | .descendingTiesReversed => .ascending

section Alike

variable {K : Type} [LinearOrder K] {rank : Value → K} {keys : List Value} {a b c : Keyed}

theorem ordering_eq (h : Value.PlacedBy rank keys) {x y : Value} (hx : x ∈ keys) (hy : y ∈ keys) :
    x.ordering y = Ord.compare (rank x) (rank y) := by
  unfold Value.ordering
  rw [Value.gt_eq_lt]
  rcases lt_trichotomy (rank x) (rank y) with hlt | heq | hlt
  · rw [compare_lt_iff_lt.mpr hlt, if_neg, if_pos]
    · exact (h x hx y hy).mpr hlt
    · exact fun h' => hlt.asymm ((h y hy x hx).mp h')
  · rw [compare_eq_iff_eq.mpr heq, if_neg, if_neg]
    · exact fun h' => heq.not_lt ((h x hx y hy).mp h')
    · exact fun h' => heq.not_gt ((h y hy x hx).mp h')
  · rw [compare_gt_iff_gt.mpr hlt, if_pos]
    exact (h y hy x hx).mpr hlt

theorem behind_iff (h : Value.PlacedBy rank keys) (ha : a.key ∈ keys) (hb : b.key ∈ keys)
    (order : SortOrder) :
    order.behind a b = true ↔
      match order with
      | .ascending => rank b.key < rank a.key
      | .descending => rank a.key < rank b.key
      | .ascendingTiesReversed =>
        rank b.key < rank a.key ∨ (rank a.key = rank b.key ∧ a.place < b.place)
      | .descendingTiesReversed =>
        rank a.key < rank b.key ∨ (rank b.key = rank a.key ∧ a.place < b.place) := by
  cases order
  all_goals
    simp only [behind, compare, ordering_eq h, ha, hb, beq_iff_eq, Ordering.then_eq_gt,
      compare_gt_iff_gt, compare_eq_iff_eq]

theorem precedes_iff (h : Value.RankedBy rank keys) (ha : a.key ∈ keys) (hb : b.key ∈ keys)
    (order : SortOrder) :
    order.Precedes a b ↔
      match order with
      | .ascending => rank a.key < rank b.key ∨ rank a.key = rank b.key ∧ a.place < b.place
      | .descending => rank b.key < rank a.key ∨ rank a.key = rank b.key ∧ a.place < b.place
      | .ascendingTiesReversed =>
        rank a.key < rank b.key ∨ rank a.key = rank b.key ∧ b.place < a.place
      | .descendingTiesReversed =>
        rank b.key < rank a.key ∨ rank a.key = rank b.key ∧ b.place < a.place := by
  cases order
  all_goals simp only [Precedes, h.lt _ ha _ hb, h.lt _ hb _ ha, h.eq _ ha _ hb]

/-- A comparison with an earlier element decides which of the two stands in front. -/
theorem precedes_of_behind (h : Value.RankedBy rank keys) (ha : a.key ∈ keys) (hb : b.key ∈ keys)
    (order : SortOrder) (hplace : a.place < b.place) :
    (order.behind a b = true → order.Precedes b a) ∧
      (order.behind a b = false → order.Precedes a b) := by
  rw [← Bool.not_eq_true, precedes_iff h ha hb, precedes_iff h hb ha, behind_iff h.lt ha hb]
  cases order <;> grind

theorem precedes_trans (h : Value.RankedBy rank keys) (ha : a.key ∈ keys) (hb : b.key ∈ keys)
    (hc : c.key ∈ keys) {order : SortOrder} (hab : order.Precedes a b) (hbc : order.Precedes b c) :
    order.Precedes a c := by
  rw [precedes_iff h ha hb] at hab
  rw [precedes_iff h hb hc] at hbc
  rw [precedes_iff h ha hc]
  cases order <;> grind

theorem precedes_asymm (h : Value.RankedBy rank keys) (ha : a.key ∈ keys) (hb : b.key ∈ keys)
    {order : SortOrder} (hab : order.Precedes a b) : ¬ order.Precedes b a := by
  rw [precedes_iff h ha hb] at hab
  rw [precedes_iff h hb ha]
  cases order <;> grind

theorem precedes_opposite (h : Value.RankedBy rank keys) (ha : a.key ∈ keys) (hb : b.key ∈ keys)
    (order : SortOrder) : order.opposite.Precedes a b ↔ order.Precedes b a := by
  rw [precedes_iff h ha hb, precedes_iff h hb ha]
  cases order <;> simp only [opposite] <;> grind

end Alike
end SortOrder

/-! ## The elements and their keys -/

theorem keyed_map_item {items : List Json} {keys : List Value} (h : keys.length = items.length) :
    ∀ i, (keyed i items keys).map Keyed.item = items := by
  induction items generalizing keys with
  | nil => intro i; rfl
  | cons item items ih =>
    intro i
    cases keys with
    | nil => cases h
    | cons key keys => rw [keyed, List.map_cons, ih (Nat.succ.inj h)]

theorem of_mem_keyed {items : List Json} {keys : List Value} {e : Keyed} :
    ∀ {i : Nat}, e ∈ keyed i items keys → i ≤ e.place ∧ e.key ∈ keys := by
  induction items generalizing keys with
  | nil =>
    intro i h
    cases h
  | cons item items ih =>
    intro i h
    cases keys with
    | nil => cases h
    | cons key keys =>
      rcases List.mem_cons.mp h with rfl | h
      · exact ⟨le_rfl, List.mem_cons_self⟩
      · obtain ⟨hplace, hkey⟩ := ih h
        exact ⟨Nat.le_of_succ_le hplace, .tail key hkey⟩

theorem keyed_pairwise (items : List Json) (keys : List Value) :
    ∀ i, (keyed i items keys).Pairwise fun a b => a.place < b.place := by
  induction items generalizing keys with
  | nil =>
    intro i
    exact .nil
  | cons item items ih =>
    intro i
    cases keys with
    | nil => exact .nil
    | cons key keys =>
      exact List.pairwise_cons.mpr ⟨fun e he => (of_mem_keyed he).1, ih keys (i + 1)⟩

/-! ## Runs -/

section Runs

variable {keys : List Rule} {r : Reading} {items : List Json} {sessions : Nat → Session}
  {results : List Value} {own : Option String} {point : Option Point} {cascade : Value}
  {s : Session}

/-- Sorting by an order succeeds if the sequences for the keys do. -/
theorem Action.run_sort (order : SortOrder) (hvalue : r.value = .ofItems items)
    (hkeys : Rule.Through keys r items sessions results) :
    (Action.run (.sort keys (.order order)) r).on (sessions 0) =
      (.ok ⟨.ofItems ((arranged order.behind (keyed 0 items results)).map Keyed.item),
        some r.point⟩, sessions items.length) := by
  have hsteps := hkeys.element
  have hsorted : insertionSort (SortComparison.order order).comesAfter (keyed 0 items results) =
      .ok (arranged order.behind (keyed 0 items results)) :=
    insertionSort_eq (fun _ _ => rfl) _
  simp only [Action.run]
  rw [Run.on_bind_eq_ok]
  refine ⟨items, sessions 0, Run.on_ofExcept_eq_ok.mpr ⟨arrayFor_eq_ok.mpr hvalue, rfl⟩, ?_⟩
  rw [Run.on_bind_eq_ok]
  refine ⟨results, sessions items.length, eachElement_eq_ok.mpr ?_, ?_⟩
  · simp only [Nat.zero_add]
    exact ⟨hkeys.length, sessions, rfl, rfl, hsteps⟩
  · rw [hsorted]
    rfl

theorem Rule.run_sort (order : SortOrder)
    (hread : (takeReading own point cascade).on s = (.ok r, sessions 0))
    (hvalue : r.value = .ofItems items) (hkeys : Through keys r items sessions results) :
    (Rule.run (.action own (.sort keys (.order order))) point cascade).on s =
      (.ok ⟨.ofItems ((arranged order.behind (keyed 0 items results)).map Keyed.item),
        some r.point⟩, sessions items.length) := by
  simp only [Rule.run]
  exact Run.on_bind_eq_ok.mpr ⟨r, sessions 0, hread, Action.run_sort order hvalue hkeys⟩

/-- **Sorting leaves no two neighbours out of order.** If the sequences for the keys succeed,
sorting by any of the four orders succeeds as well, whatever the keys are. The result has the
elements of the array, each as often as the array has had it, and no element of it belongs behind
its neighbour to the right, by their keys and their places before sorting. -/
theorem Rule.sort_neighbours (order : SortOrder)
    (hread : (takeReading own point cascade).on s = (.ok r, sessions 0))
    (hvalue : r.value = .ofItems items) (hkeys : Through keys r items sessions results) :
    ∃ sorted : List Keyed,
      (Rule.run (.action own (.sort keys (.order order))) point cascade).on s =
        (.ok ⟨.ofItems (sorted.map Keyed.item), some r.point⟩, sessions items.length) ∧
      sorted.Perm (keyed 0 items results) ∧ (sorted.map Keyed.item).Perm items ∧
      sorted.IsChain fun a b => order.compare a b ≠ .gt := by
  have hperm := arranged_perm order.behind (keyed 0 items results)
  refine ⟨_, run_sort order hread hvalue hkeys, hperm, ?_, ?_⟩
  · have hitems := hperm.map Keyed.item
    rwa [keyed_map_item hkeys.length] at hitems
  · refine (arranged_isChain (fun a b => SortOrder.behind_asymm) _).imp fun a b hab hgt => ?_
    rw [SortOrder.behind, hgt] at hab
    cases hab

theorem Run.items_unique {x : Run Outcome} {s t u : Session} {xs ys : List Json}
    {p q : Option Point} (hx : x.on s = (.ok ⟨.ofItems xs, p⟩, t))
    (hy : x.on s = (.ok ⟨.ofItems ys, q⟩, u)) : xs = ys := by
  have hsame := hx.symm.trans hy
  simp only [Prod.mk.injEq, Except.ok.injEq, Outcome.mk.injEq, Value.ofItems, Value.json.injEq,
    Json.arr.injEq] at hsame
  exact hsame.1.1

/-- Sorts the array of a document by a field of its elements. -/
def Rule.sortByKey (order : SortOrder) : Rule :=
  .action (some "/x") (.sort [.path "/k"] (.order order))

/-- An element with a key and a tag that sorting does not look at. -/
def Json.tagged (key : Json) (tag : String) : Json :=
  .obj [("k", key), ("tag", .str tag)]

/-- Elements of which one has no key. -/
def Json.partlyTagged : List Json :=
  [.tagged (.num (.int 3)) "a", .tagged (.num (.int 2)) "b", .obj [], .tagged (.num (.int 1)) "c"]

/-- No key has no order with numbers, and so one stays behind three. -/
theorem Rule.sortByKey_partlyTagged :
    ∃ sorted : List Keyed,
      ((sortByKey .ascending).run none .undefined).on (.holdingItems Json.partlyTagged) =
        (.ok ⟨.ofItems (sorted.map Keyed.item), some (Point.documentRoot.child "x")⟩,
          .holdingItems Json.partlyTagged) ∧
      sorted.map Keyed.item = [.tagged (.num (.int 2)) "b", .tagged (.num (.int 3)) "a", .obj [],
        .tagged (.num (.int 1)) "c"] ∧
      sorted.IsChain fun a b => SortOrder.compare .ascending a b ≠ .gt := by
  have hread : (takeReading (some "/x") none .undefined).on (.holdingItems Json.partlyTagged) =
    (.ok ⟨.ofItems Json.partlyTagged, Point.documentRoot.child "x", true⟩,
      .holdingItems Json.partlyTagged) := rfl
  have hkeys : Through [.path "/k"] ⟨.ofItems Json.partlyTagged,
      Point.documentRoot.child "x", true⟩ Json.partlyTagged
      (fun _ => .holdingItems Json.partlyTagged)
      [.json (.num (.int 3)), .json (.num (.int 2)), .undefined, .json (.num (.int 1))] := by
    refine ⟨rfl, fun i element h => ?_⟩
    rcases i with _ | _ | _ | _ | i <;> cases h <;> exact ⟨_, rfl, rfl⟩
  have hsorted : ((sortByKey .ascending).run none .undefined).on
      (.holdingItems Json.partlyTagged) =
    (.ok ⟨.ofItems [.tagged (.num (.int 2)) "b", .tagged (.num (.int 3)) "a", .obj [],
        .tagged (.num (.int 1)) "c"], some (Point.documentRoot.child "x")⟩,
      .holdingItems Json.partlyTagged) := rfl
  obtain ⟨sorted, hrun, -, -, hchain⟩ := sort_neighbours .ascending hread rfl hkeys
  exact ⟨sorted, hrun, Run.items_unique hrun hsorted, hchain⟩

section Alike

variable {K : Type} [LinearOrder K] {rank : Value → K}

/-- Keys that are in a linear order are put into it, with their ties. -/
theorem arranged_precedes (h : Value.RankedBy rank results) (items : List Json) (i : Nat)
    (order : SortOrder) :
    (arranged order.behind (keyed i items results)).Pairwise order.Precedes := by
  have hkey : ∀ e ∈ keyed i items results, e.key ∈ results := fun e he => (of_mem_keyed he).2
  refine arranged_pairwise ?_ ?_
  · refine (keyed_pairwise items results i).imp_of_mem fun ha hb hplace => ?_
    exact SortOrder.precedes_of_behind h (hkey _ ha) (hkey _ hb) order hplace
  · intro a ha b hb c hc
    exact SortOrder.precedes_trans h (hkey a ha) (hkey b hb) (hkey c hc)

/-- The opposite order gives the reverse: the elements can be in an order in one way only. -/
theorem arranged_opposite (h : Value.RankedBy rank results) (items : List Json) (i : Nat)
    (order : SortOrder) :
    arranged order.opposite.behind (keyed i items results) =
      (arranged order.behind (keyed i items results)).reverse := by
  have hmem : ∀ order' : SortOrder, ∀ e ∈ arranged order'.behind (keyed i items results),
      e.key ∈ results := fun order' e he => (of_mem_keyed ((arranged_perm _ _).mem_iff.mp he)).2
  have hreverse : (arranged order.behind (keyed i items results)).reverse.Pairwise
      order.opposite.Precedes := by
    rw [List.pairwise_reverse]
    refine (arranged_precedes h items i order).imp_of_mem fun ha hb hab => ?_
    exact (SortOrder.precedes_opposite h (hmem order _ hb) (hmem order _ ha) order).mpr hab
  have hperm : (arranged order.opposite.behind (keyed i items results)).Perm
      (arranged order.behind (keyed i items results)).reverse :=
    (arranged_perm _ _).trans ((List.reverse_perm _).trans (arranged_perm _ _)).symm
  refine hperm.eq_of_pairwise ?_ (arranged_precedes h items i order.opposite) hreverse
  intro a b ha hb hab hba
  have hb := List.mem_reverse.mp hb
  exact absurd hba (SortOrder.precedes_asymm h (hmem _ a ha) (hmem order b hb) hab)

end Alike

/-- **Keys of one sort are put into their order, and ties are kept or reversed.** Where the keys are
all texts or all numbers, sorting upward (`>`) puts the elements into ascending order by their keys
and downward (`<`) into descending order, with equal keys as they were in the array. The other two
orders give the reverse of these: `>=` that of `<`, and `<=` that of `>`. -/
theorem Rule.sort_alike_keys
    (hread : (takeReading own point cascade).on s = (.ok r, sessions 0))
    (hvalue : r.value = .ofItems items) (hkeys : Through keys r items sessions results)
    (halike : (∀ key ∈ results, ∃ text, key = .ofText text) ∨
      ∀ key ∈ results, ∃ n, key = .json (.num n)) :
    ∃ sorted : SortOrder → List Keyed,
      (∀ order, (Rule.run (.action own (.sort keys (.order order))) point cascade).on s =
        (.ok ⟨.ofItems ((sorted order).map Keyed.item), some r.point⟩, sessions items.length)) ∧
      (∀ order, (sorted order).Perm (keyed 0 items results)) ∧
      (sorted .ascending).Pairwise (fun a b =>
        a.key.lt b.key = true ∨ a.key.strictEq b.key = true ∧ a.place < b.place) ∧
      (sorted .descending).Pairwise (fun a b =>
        b.key.lt a.key = true ∨ a.key.strictEq b.key = true ∧ a.place < b.place) ∧
      sorted .ascendingTiesReversed = (sorted .descending).reverse ∧
      sorted .descendingTiesReversed = (sorted .ascending).reverse := by
  obtain ⟨K, _, rank, h⟩ := Value.exists_rankedBy halike
  exact ⟨fun order => arranged order.behind (keyed 0 items results),
    fun order => run_sort order hread hvalue hkeys, fun order => arranged_perm _ _,
    arranged_precedes h items 0 .ascending, arranged_precedes h items 0 .descending,
    arranged_opposite h items 0 .descending, arranged_opposite h items 0 .ascending⟩

/-- Elements of which two have one key. -/
def Json.twiceTagged : List Json :=
  [.tagged (.str "z") "a", .tagged (.str "y") "b", .tagged (.str "z") "c"]

/-- In ascending order the equal keys stay as they were; the opposite order turns everything
around. -/
theorem Rule.sortByKey_twiceTagged :
    ∃ up down : List Keyed,
      ((sortByKey .ascending).run none .undefined).on (.holdingItems Json.twiceTagged) =
        (.ok ⟨.ofItems (up.map Keyed.item), some (Point.documentRoot.child "x")⟩,
          .holdingItems Json.twiceTagged) ∧
      ((sortByKey .descendingTiesReversed).run none .undefined).on
          (.holdingItems Json.twiceTagged) =
        (.ok ⟨.ofItems (down.map Keyed.item), some (Point.documentRoot.child "x")⟩,
          .holdingItems Json.twiceTagged) ∧
      up.map Keyed.item =
        [.tagged (.str "y") "b", .tagged (.str "z") "a", .tagged (.str "z") "c"] ∧
      down = up.reverse := by
  have hread : (takeReading (some "/x") none .undefined).on (.holdingItems Json.twiceTagged) =
    (.ok ⟨.ofItems Json.twiceTagged, Point.documentRoot.child "x", true⟩,
      .holdingItems Json.twiceTagged) := rfl
  have hkeys : Through [.path "/k"] ⟨.ofItems Json.twiceTagged,
      Point.documentRoot.child "x", true⟩ Json.twiceTagged
      (fun _ => .holdingItems Json.twiceTagged) [.ofText "z", .ofText "y", .ofText "z"] := by
    refine ⟨rfl, fun i element h => ?_⟩
    rcases i with _ | _ | _ | i <;> cases h <;> exact ⟨_, rfl, rfl⟩
  have htexts : ∀ key ∈ [Value.ofText "z", .ofText "y", .ofText "z"], ∃ text, key = .ofText text :=
    by simp
  have hsorted : ((sortByKey .ascending).run none .undefined).on
      (.holdingItems Json.twiceTagged) =
    (.ok ⟨.ofItems [.tagged (.str "y") "b", .tagged (.str "z") "a", .tagged (.str "z") "c"],
        some (Point.documentRoot.child "x")⟩, .holdingItems Json.twiceTagged) := rfl
  obtain ⟨sorted, hrun, -, -, -, -, hreverse⟩ := sort_alike_keys hread rfl hkeys (.inl htexts)
  exact ⟨_, _, hrun .ascending, hrun .descendingTiesReversed,
    Run.items_unique (hrun .ascending) hsorted, hreverse⟩

end Runs

end DocumentRules
