import DocumentRules.Proofs.Pointer.Lens

/-!
# Writing again

`DocumentRules.Proofs.Pointer.Lens` says what is read after a write. This module says what a write
does to a document beyond what is read: it answers with what stood at its path, a second write
leaves nothing of the first, and a write of what is there anyway leaves nothing at all. The last two
are equations between documents, so the order of an object's fields counts: `Table.put` replaces a
field where it stands, and a field that is added stands where a second write would have added it.

Both are inductions along the walk of `Json.set?`, over one step as before. The second write is made
at the slot of the first. At the path itself it could be another append.
-/

set_option autoImplicit false

namespace DocumentRules.Json

/-! ## Filling a position again -/

section Fill

variable {items : List Json} {i : Nat}

theorem fill_fill (h : i ≤ items.length) (first second : Json) :
    fill (fill items i first) i second = fill items i second := by
  have htake : (items.take i).length = i := List.length_take_of_le h
  simp [fill, List.drop_append, htake]

theorem le_length_fill (h : i ≤ items.length) (value : Json) :
    i ≤ (fill items i value).length := by
  rw [fill, List.length_append, List.length_take_of_le h]
  exact Nat.le_add_right _ _

end Fill

/-! ## One step -/

section Step

variable {doc parent child value : Json} {token : String} {old : Option Json}

theorem replaceChild_replaceChild (doc : Json) (token : String) (first second : Json) :
    (doc.replaceChild token first).replaceChild token second = doc.replaceChild token second := by
  cases doc with
  | obj fields =>
    simp only [replaceChild, Table.replace_replace]
  | arr items =>
    cases hi : Pointer.index? token with
    | none => simp only [replaceChild, hi]
    | some i => simp only [replaceChild, hi, List.set_set]
  | _ => rfl

theorem replaceChild_of_step? (h : doc.step? token = some child) :
    doc.replaceChild token child = doc := by
  cases doc with
  | obj fields =>
    rw [replaceChild, Table.replace_of_lookup h]
  | arr items =>
    cases hi : Pointer.index? token with
    | none => simp only [replaceChild, hi]
    | some i =>
      rw [step?_arr hi] at h
      obtain ⟨hlt, rfl⟩ := List.getElem?_eq_some_iff.mp h
      simp only [replaceChild, hi, List.set_getElem_self]
  | _ => rfl

theorem old_of_setChild (h : doc.setChild token value = .ok (old, parent)) :
    old = doc.step? token := by
  cases doc with
  | obj fields =>
    simp only [setChild, Except.ok.injEq, Prod.mk.injEq] at h
    exact h.1.symm
  | arr items =>
    obtain ⟨i, -, hslot, rfl, -⟩ := setChild_arr h
    by_cases hdash : token = "-"
    · -- The position behind the last one has no item yet, and the token leads nowhere.
      have hnext : toString items.length = toString i := by
        rw [← hslot, childSlot, if_pos hdash]
      have hlength : items.length = i := by
        have hi := Pointer.index?_toString i
        rwa [← hnext, Pointer.index?_toString, Option.some.injEq] at hi
      simp [← hlength, hdash, step?, Pointer.index?_dash]
    · rw [childSlot_eq_self fun _ _ => hdash] at hslot
      rw [hslot, step?_arr_toString]
  | _ => simp [setChild] at h

theorem setChild_again (h : doc.setChild token value = .ok (old, parent)) (second : Json) :
    ∃ after, parent.setChild (doc.childSlot token) second = .ok (some value, after) ∧
      doc.setChild token second = .ok (old, after) := by
  cases doc with
  | obj fields =>
    simp only [setChild, Except.ok.injEq, Prod.mk.injEq] at h
    obtain ⟨rfl, rfl⟩ := h
    refine ⟨.obj (Table.put token second fields), ?_, rfl⟩
    simp only [childSlot, setChild, Table.lookup_put_self, Table.put_put]
  | arr items =>
    obtain ⟨i, hi, hslot, rfl, rfl⟩ := setChild_arr h
    refine ⟨.arr (fill items i second), ?_, ?_⟩
    · rw [hslot, setChild_toString (le_length_fill hi value), getElem?_fill_self hi,
        fill_fill hi]
    · rw [← setChild_childSlot, hslot, setChild_toString hi]
  | _ => simp [setChild] at h

/-- Putting another child where one is, is a write. -/
theorem setChild_eq_replaceChild (h : doc.step? token = some child) (new : Json) :
    doc.setChild token new = .ok (some child, doc.replaceChild token new) := by
  cases doc with
  | obj fields =>
    have hlookup : fields.lookup token = some child := h
    have hthere : Table.contains token fields = true := by
      rw [Table.contains, hlookup]
      rfl
    rw [setChild, replaceChild, hlookup, Table.put, if_pos hthere]
  | arr items =>
    cases hi : Pointer.index? token with
    | none => simp [step?, hi] at h
    | some i =>
      rw [step?_arr hi] at h
      have hlt := (List.getElem?_eq_some_iff.mp h).1
      simp only [replaceChild, hi]
      rw [Pointer.index?_eq_some_iff.mp hi, setChild_toString (Nat.le_of_lt hlt), h, fill_of_lt hlt]
  | _ => simp [step?] at h

theorem setChild_of_step? (h : doc.step? token = some child) :
    doc.setChild token child = .ok (some child, doc) := by
  rw [setChild_eq_replaceChild h, replaceChild_of_step? h]

end Step

/-! ## A whole write -/

/-- A write below a child that is there succeeds if it does in the child. -/
theorem set?_of_step? {doc child child' value : Json} {token : String} {path : List String}
    {old : Option Json} (hpath : path ≠ []) (hstep : doc.step? token = some child)
    (h : child.set? path value = .ok (old, child')) :
    doc.set? (token :: path) value = .ok (old, doc.replaceChild token child') := by
  obtain ⟨next, rest, rfl⟩ := List.exists_cons_of_ne_nil hpath
  simp only [set?, hstep, h]

theorem slot_ne_nil (doc : Json) (token : String) (rest : List String) :
    doc.slot (token :: rest) ≠ [] := by
  cases rest with
  | nil => simp [slot]
  | cons next rest =>
    rw [slot]
    split <;> simp

/-- A write answers with what stood at its path. -/
theorem old_of_set? {path : List String} {value : Json} {old : Option Json} :
    ∀ {doc doc' : Json}, doc.set? path value = .ok (old, doc') → old = doc.get? path := by
  induction path with
  | nil =>
    intro doc doc' h
    simp only [set?, Except.ok.injEq, Prod.mk.injEq] at h
    exact h.1.symm
  | cons token rest ih =>
    intro doc doc' h
    cases rest with
    | nil =>
      rw [get?_singleton, old_of_setChild h]
    | cons next rest =>
      obtain ⟨child, child', hstep, hset, -⟩ := set?_cons_cons h
      rw [get?_cons, hstep]
      exact ih hset

/-- A second write at the slot replaces the first, and leaves what it would have left alone. -/
theorem set?_again {path : List String} {value : Json} {old : Option Json} (second : Json) :
    ∀ {doc doc' : Json}, doc.set? path value = .ok (old, doc') →
      ∃ after, doc'.set? (doc.slot path) second = .ok (some value, after) ∧
        doc.set? path second = .ok (old, after) := by
  induction path with
  | nil =>
    intro doc doc' h
    simp only [set?, Except.ok.injEq, Prod.mk.injEq] at h
    obtain ⟨rfl, rfl⟩ := h
    exact ⟨second, rfl, rfl⟩
  | cons token rest ih =>
    intro doc doc' h
    cases rest with
    | nil => exact setChild_again h second
    | cons next rest =>
      obtain ⟨child, child', hstep, hset, rfl⟩ := set?_cons_cons h
      obtain ⟨after, hagain, honce⟩ := ih hset
      refine ⟨doc.replaceChild token after, ?_, set?_of_step? (by simp) hstep honce⟩
      -- The second write goes down to the child that the first has left.
      have hnew : (doc.replaceChild token child').step? token = some child' :=
        step?_replaceChild_self hstep
      simp only [slot, hstep]
      rw [set?_of_step? (child.slot_ne_nil next rest) hnew hagain, replaceChild_replaceChild]

/-- Writing what is there changes nothing. -/
theorem set?_of_get? {path : List String} {found : Json} :
    ∀ {doc : Json}, doc.get? path = some found → doc.set? path found = .ok (some found, doc) := by
  induction path with
  | nil =>
    intro doc h
    rw [get?, Option.some.injEq] at h
    rw [set?, h]
  | cons token rest ih =>
    intro doc h
    rw [get?_cons] at h
    obtain ⟨child, hstep, hget⟩ := Option.bind_eq_some_iff.mp h
    cases rest with
    | nil =>
      rw [get?, Option.some.injEq] at hget
      exact setChild_of_step? (hget ▸ hstep)
    | cons next rest =>
      rw [set?_of_step? (by simp) hstep (ih hget), replaceChild_of_step? hstep]

/-- **Reading and writing at a path are a lens.** A write that succeeds is read back at its slot,
which is the path itself unless an item is appended through the token that names no position. It
answers with what was read at the path before, which for an appended item is nothing. A second write
at the slot leaves the document that it would have left alone at the path, and a write of what is
read at the path leaves the document as it is. -/
theorem set_lens {doc doc' value : Json} {path : List String} {old : Option Json}
    (h : doc.set path value = .ok (old, doc')) :
    doc'.get? (doc.slot path) = some value ∧
    old = doc.get? path ∧
    (∀ parent items, path = parent ++ ["-"] → doc.get? parent = some (.arr items) →
      doc.slot path = parent ++ [toString items.length] ∧ old = none) ∧
    (¬ doc.AppendsAt path → doc.slot path = path) ∧
    (∀ second, ∃ after, doc'.set (doc.slot path) second = .ok (some value, after) ∧
      doc.set path second = .ok (old, after)) ∧
    (∀ found, doc.get? path = some found → doc.set path found = .ok (some found, doc)) := by
  have hset := set?_of_set h
  have hold := old_of_set? hset
  refine ⟨get?_set?_slot hset, hold, ?_, slot_eq_self, fun second => ?_, fun found hfound => ?_⟩
  · rintro parent items rfl hparent
    refine ⟨slot_append hparent, ?_⟩
    rw [hold, get?_append, hparent]
    rfl
  · obtain ⟨after, hagain, honce⟩ := set?_again second hset
    exact ⟨after, mapError_eq_ok.mpr hagain, mapError_eq_ok.mpr honce⟩
  · exact mapError_eq_ok.mpr (set?_of_get? hfound)

/-- The second write is made at the position that the first has appended at. -/
theorem set_lens_appending :
    (Json.obj [("xs", .arr [.null])]).set ["xs", "-"] (.bool true) =
        .ok (none, .obj [("xs", .arr [.null, .bool true])]) ∧
      (Json.obj [("xs", .arr [.null, .bool true])]).get? ["xs", "1"] = some (.bool true) ∧
      ∃ after, (Json.obj [("xs", .arr [.null, .bool true])]).set ["xs", "1"] (.str "a") =
          .ok (some (.bool true), after) ∧
        (Json.obj [("xs", .arr [.null])]).set ["xs", "-"] (.str "a") = .ok (none, after) := by
  have h : (Json.obj [("xs", .arr [.null])]).set ["xs", "-"] (.bool true) =
      .ok (none, .obj [("xs", .arr [.null, .bool true])]) := rfl
  obtain ⟨hread, -, -, -, hagain, -⟩ := set_lens h
  exact ⟨h, hread, hagain (.str "a")⟩

end DocumentRules.Json
