import DocumentRules.Pointer.Access
import DocumentRules.Proofs.Pointer.Index
import DocumentRules.Proofs.Result

/-!
# Reading after writing

A write and the reads around it are compared at *paths*. A write at a path fills one place, its
`Json.slot`: the path itself, except that a final `-` under an array is spelled as the position that
the append takes. Two laws then say all there is to say about a document after a write:

* at the slot stands the value written (`get?_set?_slot`);
* at every path that is neither above nor below the slot stands what stood there before
  (`get?_set?_of_apart`).

Both are one induction along the walk of `Json.set?`, over the same two facts about a single step:
a container with a changed child has the new child under that token, and its old ones under all
others. The second of these is where positions having one spelling is needed. An array is changed in
one way only, at a position that it has or at the next one (`Json.fill`), so what replaces an item
and what appends one are not told apart.
-/

set_option autoImplicit false

namespace DocumentRules

/-! ## Paths apart -/

/-- Neither path leads through the place of the other. -/
def Apart (p q : List String) : Prop :=
  ¬ p <+: q ∧ ¬ q <+: p

theorem Apart.symm {p q : List String} (h : Apart p q) : Apart q p :=
  ⟨h.2, h.1⟩

theorem not_apart_nil_left (q : List String) : ¬ Apart [] q :=
  fun h => h.1 (List.nil_prefix)

theorem not_apart_nil_right (p : List String) : ¬ Apart p [] :=
  fun h => not_apart_nil_left p h.symm

theorem apart_cons_iff {a b : String} {p q : List String} :
    Apart (a :: p) (b :: q) ↔ (a = b → Apart p q) := by
  by_cases hab : a = b
  · subst hab
    simp [Apart, List.cons_prefix_cons]
  · have hba : ¬ b = a := fun h => hab h.symm
    simp [Apart, List.cons_prefix_cons, hab, hba]

namespace Json

/-! ## The place that a write fills -/

/-- The token under which a container finds what is written under `token`. -/
def childSlot (parent : Json) (token : String) : String :=
  match parent with
  | .arr items => if token = "-" then toString items.length else token
  | _ => token

/-- The path under which a document finds what is written at `path`. -/
def slot (doc : Json) (path : List String) : List String :=
  match path with
  | [] => []
  | [token] => [doc.childSlot token]
  | token :: next :: rest =>
    match doc.step? token with
    | some child => token :: child.slot (next :: rest)
    | none => token :: next :: rest

/-- A write at `path` appends to an array through the token that names no position. -/
def AppendsAt (doc : Json) (path : List String) : Prop :=
  ∃ parent items, path = parent ++ ["-"] ∧ doc.get? parent = some (.arr items)

theorem childSlot_eq_self {parent : Json} {token : String}
    (h : ∀ items, parent = .arr items → token ≠ "-") : parent.childSlot token = token := by
  cases parent with
  | arr items => simp [childSlot, h items rfl]
  | _ => rfl

/-- A write that does not append fills the place it names. -/
theorem slot_eq_self {path : List String} :
    ∀ {doc : Json}, ¬ doc.AppendsAt path → doc.slot path = path := by
  induction path with
  | nil => intro doc _; rfl
  | cons token rest ih =>
    intro doc h
    cases rest with
    | nil =>
      rw [slot, childSlot_eq_self]
      rintro items rfl rfl
      exact h ⟨[], items, rfl, rfl⟩
    | cons next rest =>
      rw [slot]
      cases hstep : doc.step? token with
      | none => rfl
      | some child =>
        have hchild : ¬ child.AppendsAt (next :: rest) := by
          rintro ⟨parent, items, hpath, hget⟩
          exact h ⟨token :: parent, items, by rw [hpath, List.cons_append],
            by simpa [get?, hstep] using hget⟩
        simp only [ih hchild]

/-- A write that appends fills the next position. -/
theorem slot_append {parent : List String} {items : List Json} :
    ∀ {doc : Json}, doc.get? parent = some (.arr items) →
      doc.slot (parent ++ ["-"]) = parent ++ [toString items.length] := by
  induction parent with
  | nil =>
    intro doc h
    rw [get?, Option.some.injEq] at h
    rw [h]
    rfl
  | cons token rest ih =>
    intro doc h
    -- Below the token the path is not at its end, since the last token is still to come.
    obtain ⟨next, tail, hrest⟩ := List.exists_cons_of_ne_nil
      (List.append_ne_nil_of_right_ne_nil rest (List.cons_ne_nil "-" []))
    rw [List.cons_append, hrest, slot]
    cases hstep : doc.step? token with
    | none => simp [get?, hstep] at h
    | some child =>
      simp only [get?, hstep] at h
      dsimp only
      rw [← hrest, ih h, List.cons_append]

/-! ## One step -/

theorem get?_cons (token : String) (rest : List String) (doc : Json) :
    doc.get? (token :: rest) = (doc.step? token).bind (get? rest) := by
  rw [get?]
  cases doc.step? token <;> rfl

theorem get?_singleton (token : String) (doc : Json) : doc.get? [token] = doc.step? token := by
  rw [get?_cons]
  cases doc.step? token <;> rfl

theorem get?_append (p q : List String) (doc : Json) :
    doc.get? (p ++ q) = (doc.get? p).bind (get? q) := by
  induction p generalizing doc with
  | nil => rfl
  | cons token rest ih =>
    rw [List.cons_append, get?_cons, get?_cons, Option.bind_assoc]
    exact Option.bind_congr fun child _ => ih child

theorem step?_arr {items : List Json} {token : String} {i : Nat}
    (h : Pointer.index? token = some i) : (Json.arr items).step? token = items[i]? := by
  simp [step?, h]

theorem step?_arr_toString (items : List Json) (i : Nat) :
    (Json.arr items).step? (toString i) = items[i]? :=
  step?_arr (Pointer.index?_toString i)

/-- Two arrays that agree off one position agree under every token but the one of that position. -/
theorem step?_arr_congr {xs ys : List Json} {other : String} {i : Nat} (hne : other ≠ toString i)
    (h : ∀ j, j ≠ i → xs[j]? = ys[j]?) : (Json.arr xs).step? other = (Json.arr ys).step? other := by
  cases hj : Pointer.index? other with
  | none => simp [step?, hj]
  | some j =>
    rw [step?_arr hj, step?_arr hj]
    refine h j fun hji => hne ?_
    rw [← hji]
    exact Pointer.index?_eq_some_iff.mp hj

theorem step?_replaceChild_self {doc child : Json} {token : String} {old : Json}
    (h : doc.step? token = some old) : (doc.replaceChild token child).step? token = some child := by
  cases doc with
  | obj fields =>
    have hc : Table.contains token fields = true := by
      rw [Table.contains, Option.isSome_iff_exists]
      exact ⟨old, h⟩
    exact Table.lookup_replace_self hc
  | arr items =>
    cases hi : Pointer.index? token with
    | none => simp [step?, hi] at h
    | some i =>
      rw [step?_arr hi] at h
      have hlt : i < items.length := (List.getElem?_eq_some_iff.mp h).1
      simp [replaceChild, step?, hi, hlt]
  | _ => simp [step?] at h

theorem step?_replaceChild_of_ne {token other : String} (doc child : Json) (h : other ≠ token) :
    (doc.replaceChild token child).step? other = doc.step? other := by
  cases doc with
  | obj fields => exact Table.lookup_replace_of_ne child fields h
  | arr items =>
    cases hi : Pointer.index? token with
    | none => simp [replaceChild, hi]
    | some i =>
      simp only [replaceChild, hi]
      refine step?_arr_congr (i := i) (fun ho => h ?_) fun j hj => List.getElem?_set_ne hj.symm
      rw [ho, ← Pointer.index?_eq_some_iff.mp hi]
  | _ => rfl

/-! ## Filling a position -/

/-- An array with a value at a position that it has, or at the next one. -/
def fill (items : List Json) (i : Nat) (value : Json) : List Json :=
  items.take i ++ value :: items.drop (i + 1)

section Fill

variable {items : List Json} {i : Nat}

theorem fill_of_lt (h : i < items.length) (value : Json) :
    fill items i value = items.set i value := by
  rw [fill, List.set_eq_take_append_cons_drop, if_pos h]

theorem fill_length (items : List Json) (value : Json) :
    fill items items.length value = items ++ [value] := by
  simp [fill]

theorem getElem?_fill_self (h : i ≤ items.length) (value : Json) :
    (fill items i value)[i]? = some value := by
  rcases Nat.lt_or_eq_of_le h with hlt | rfl
  · rw [fill_of_lt hlt]
    exact List.getElem?_set_self hlt
  · rw [fill_length, List.getElem?_concat_length]

theorem getElem?_fill_of_ne {j : Nat} (h : i ≤ items.length) (value : Json) (hj : j ≠ i) :
    (fill items i value)[j]? = items[j]? := by
  rcases Nat.lt_or_eq_of_le h with hlt | rfl
  · rw [fill_of_lt hlt]
    exact List.getElem?_set_ne hj.symm
  · rw [fill_length]
    rcases Nat.lt_or_gt_of_ne hj with hlt | hgt
    · exact List.getElem?_append_left hlt
    · rw [List.getElem?_eq_none (by simp; omega), List.getElem?_eq_none (by omega)]

end Fill

/-- Writing at a position fills it. -/
theorem setChild_toString {items : List Json} {i : Nat} (h : i ≤ items.length) (value : Json) :
    (Json.arr items).setChild (toString i) value = .ok (items[i]?, .arr (fill items i value)) := by
  have hindex := Pointer.index?_toString i
  have hdash : toString i ≠ "-" := by
    intro hdash
    rw [hdash, Pointer.index?_dash] at hindex
    cases hindex
  simp only [setChild, hdash, if_false, hindex]
  rcases Nat.lt_or_eq_of_le h with hlt | rfl
  · rw [if_pos hlt, fill_of_lt hlt]
  · simp [fill_length]

/-- A write under a token is one under the token that finds it again. -/
theorem setChild_childSlot (doc : Json) (token : String) (value : Json) :
    doc.setChild (doc.childSlot token) value = doc.setChild token value := by
  cases doc with
  | arr items =>
    by_cases hdash : token = "-"
    · have hslot : (Json.arr items).childSlot token = toString items.length := by
        simp [childSlot, hdash]
      rw [hslot, setChild_toString (Nat.le_refl _), fill_length]
      simp [setChild, hdash]
    · rw [childSlot_eq_self fun _ _ => hdash]
  | _ => rfl

/-- What `setChild` does to an array: it fills a position, that of the slot. -/
theorem setChild_arr {items : List Json} {token : String} {value parent : Json} {old : Option Json}
    (h : (Json.arr items).setChild token value = .ok (old, parent)) :
    ∃ i ≤ items.length, (Json.arr items).childSlot token = toString i ∧ old = items[i]? ∧
      parent = .arr (fill items i value) := by
  have hslot : ∃ i ≤ items.length, (Json.arr items).childSlot token = toString i := by
    by_cases hdash : token = "-"
    · exact ⟨items.length, Nat.le_refl _, by simp [childSlot, hdash]⟩
    · rw [childSlot_eq_self fun _ _ => hdash]
      simp only [setChild, hdash, if_false] at h
      split at h
      · cases h
      · next i hi =>
        refine ⟨i, ?_, Pointer.index?_eq_some_iff.mp hi⟩
        split at h
        · next hlt => exact Nat.le_of_lt hlt
        · split at h
          · next heq => exact Nat.le_of_eq heq
          · cases h
  obtain ⟨i, hi, hslot⟩ := hslot
  rw [← setChild_childSlot, hslot, setChild_toString hi, Except.ok.injEq, Prod.mk.injEq] at h
  exact ⟨i, hi, hslot, h.1.symm, h.2.symm⟩

theorem step?_setChild_slot {doc parent value : Json} {token : String} {old : Option Json}
    (h : doc.setChild token value = .ok (old, parent)) :
    parent.step? (doc.childSlot token) = some value := by
  cases doc with
  | obj fields =>
    simp only [setChild, Except.ok.injEq, Prod.mk.injEq] at h
    rw [← h.2]
    exact Table.lookup_put_self token value fields
  | arr items =>
    obtain ⟨i, hi, hslot, -, rfl⟩ := setChild_arr h
    rw [hslot, step?_arr_toString, getElem?_fill_self hi]
  | _ => simp [setChild] at h

theorem step?_setChild_of_ne {doc parent value : Json} {token other : String} {old : Option Json}
    (h : doc.setChild token value = .ok (old, parent)) (hne : other ≠ doc.childSlot token) :
    parent.step? other = doc.step? other := by
  cases doc with
  | obj fields =>
    simp only [setChild, Except.ok.injEq, Prod.mk.injEq] at h
    rw [← h.2]
    exact Table.lookup_put_of_ne value fields hne
  | arr items =>
    obtain ⟨i, hi, hslot, -, rfl⟩ := setChild_arr h
    exact step?_arr_congr (hslot ▸ hne) fun j hj => getElem?_fill_of_ne hi value hj
  | _ => simp [setChild] at h

/-! ## A whole write -/

/-- A write below a child: the child was there, the rest of the write succeeds in it, and the
document has the new child in place of the old one. -/
theorem set?_cons_cons {doc doc' value : Json} {token next : String} {rest : List String}
    {old : Option Json} (h : doc.set? (token :: next :: rest) value = .ok (old, doc')) :
    ∃ child child', doc.step? token = some child ∧
      child.set? (next :: rest) value = .ok (old, child') ∧
      doc' = doc.replaceChild token child' := by
  rw [set?] at h
  cases hstep : doc.step? token with
  | none => simp [hstep] at h
  | some child =>
    simp only [hstep] at h
    cases hset : child.set? (next :: rest) value with
    | error fault => simp [hset] at h
    | ok result =>
      obtain ⟨o, child'⟩ := result
      simp only [hset, Except.ok.injEq, Prod.mk.injEq] at h
      exact ⟨child, child', rfl, by rw [hset, h.1], h.2.symm⟩

theorem get?_set?_slot {path : List String} {value : Json} {old : Option Json} :
    ∀ {doc doc' : Json}, doc.set? path value = .ok (old, doc') →
      doc'.get? (doc.slot path) = some value := by
  induction path with
  | nil =>
    intro doc doc' h
    simp only [set?, Except.ok.injEq, Prod.mk.injEq] at h
    rw [← h.2]
    rfl
  | cons token rest ih =>
    intro doc doc' h
    cases rest with
    | nil =>
      rw [slot, get?_cons, step?_setChild_slot h]
      rfl
    | cons next rest =>
      obtain ⟨child, child', hstep, hset, rfl⟩ := set?_cons_cons h
      simp only [slot, hstep, get?_cons, step?_replaceChild_self hstep]
      exact ih hset

theorem get?_set?_of_apart {path : List String} {value : Json} {old : Option Json} :
    ∀ {doc doc' : Json} {q : List String}, doc.set? path value = .ok (old, doc') →
      Apart (doc.slot path) q → doc'.get? q = doc.get? q := by
  induction path with
  | nil =>
    intro doc doc' q _ hq
    exact absurd hq (not_apart_nil_left q)
  | cons token rest ih =>
    intro doc doc' q h hq
    cases q with
    | nil => exact absurd hq (not_apart_nil_right _)
    | cons other q =>
      rw [get?_cons, get?_cons]
      cases rest with
      | nil =>
        have hne : other ≠ doc.childSlot token := by
          intro he
          rw [slot, apart_cons_iff] at hq
          exact not_apart_nil_left q (hq he.symm)
        rw [step?_setChild_of_ne h hne]
      | cons next rest =>
        obtain ⟨child, child', hstep, hset, rfl⟩ := set?_cons_cons h
        simp only [slot, hstep, apart_cons_iff] at hq
        by_cases ho : token = other
        · subst ho
          rw [step?_replaceChild_self hstep, hstep]
          exact ih hset (hq rfl)
        · rw [step?_replaceChild_of_ne doc child' (Ne.symm ho)]

/-! ## The write with its pointer errors -/

theorem set?_of_set {doc doc' value : Json} {path : List String} {old : Option Json}
    (h : doc.set path value = .ok (old, doc')) : doc.set? path value = .ok (old, doc') :=
  mapError_eq_ok.mp h

/-- After a write that does not append, a read at or below its path is a read in the value. -/
theorem get?_set_below {doc doc' value : Json} {path : List String} {old : Option Json}
    (h : doc.set path value = .ok (old, doc')) (happend : ¬ doc.AppendsAt path)
    (rest : List String) : doc'.get? (path ++ rest) = value.get? rest := by
  have hslot := get?_set?_slot (set?_of_set h)
  rw [slot_eq_self happend] at hslot
  rw [get?_append, hslot]
  rfl

/-- After a write that does not append, a read apart from its path is what it was. -/
theorem get?_set_of_apart {doc doc' value : Json} {path q : List String} {old : Option Json}
    (h : doc.set path value = .ok (old, doc')) (happend : ¬ doc.AppendsAt path)
    (hq : Apart path q) : doc'.get? q = doc.get? q :=
  get?_set?_of_apart (set?_of_set h) (by rwa [slot_eq_self happend])

/-- **A write is local.** Whatever is read apart from the slot of a write that succeeds, or is not
there to be read, is the same after it as before. The slot is the path itself, unless an item is
appended through the token that names no position. -/
theorem set_local {doc doc' value : Json} {path : List String} {old : Option Json}
    (h : doc.set path value = .ok (old, doc')) :
    (∀ q, Apart (doc.slot path) q → doc'.get? q = doc.get? q) ∧
    (∀ parent items, path = parent ++ ["-"] → doc.get? parent = some (.arr items) →
      doc.slot path = parent ++ [toString items.length]) ∧
    (¬ doc.AppendsAt path → doc.slot path = path) := by
  refine ⟨fun q hq => get?_set?_of_apart (set?_of_set h) hq, ?_, slot_eq_self⟩
  rintro parent items rfl hparent
  exact slot_append hparent

/-- After an append the token that appends still leads nowhere, and so does a second spelling of the
position that has been filled. -/
theorem set_local_appending :
    (Json.obj [("xs", .arr [.null])]).set ["xs", "-"] (.bool true) =
        .ok (none, .obj [("xs", .arr [.null, .bool true])]) ∧
      (∀ q ∈ [["xs", "-"], ["xs", "01"], ["xs", "0"]], Apart ["xs", "1"] q ∧
        (Json.obj [("xs", .arr [.null, .bool true])]).get? q =
          (Json.obj [("xs", .arr [.null])]).get? q) := by
  have h : (Json.obj [("xs", .arr [.null])]).set ["xs", "-"] (.bool true) =
      .ok (none, .obj [("xs", .arr [.null, .bool true])]) := rfl
  have hapart : ∀ q ∈ [["xs", "-"], ["xs", "01"], ["xs", "0"]], Apart ["xs", "1"] q := by
    simp [Apart]
  exact ⟨h, fun q hq => ⟨hapart q hq, (set_local h).1 q (hapart q hq)⟩⟩

end Json

end DocumentRules
