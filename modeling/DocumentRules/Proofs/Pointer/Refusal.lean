import DocumentRules.Pointer.Edit
import DocumentRules.Proofs.Pointer.Overwrite

/-!
# Writes that are refused

A write at a path needs a parent, a parent that holds something, and a place in it. `Json.Refused`
says which of the three is missing, and it says so by what is read at the path of the parent, not by
the way that the write takes: no parent is there, also if something that holds nothing is met above
it; the parent is a scalar; or the parent is an array and the last token is neither `-` nor the text
of a position up to the next one. A write fails exactly then, and with the error that belongs to the
reason.

A refused write answers with no document. What that means for a document that is held is a law of
`Json.edit`, which rebuilds every container on the way to the parent also if the parent refuses. It
leaves the very document (`Json.edit_eq_set`).
-/

set_option autoImplicit false

namespace DocumentRules.Json

/-! ## The reasons -/

/-- A value that holds no others. -/
def IsScalar : Json → Prop
  | .obj _ => False
  | .arr _ => False
  | _ => True

/-- Why a write at a path is refused: what stands at the path of the parent, the last token, and the
error that says so. -/
inductive Refused (doc : Json) : List String → PointerError → Prop where
  | noParent {parent : List String} {token : String} (missing : doc.get? parent = none) :
      Refused doc (parent ++ [token]) (.notFound (Pointer.format parent))
  | noContainer {parent : List String} {token : String} {found : Json}
      (there : doc.get? parent = some found) (scalar : found.IsScalar) :
      Refused doc (parent ++ [token]) (.notContainer (Pointer.format parent))
  | noPosition {parent : List String} {token : String} {items : List Json}
      (there : doc.get? parent = some (.arr items)) (noAppend : token ≠ "-")
      (beyond : ∀ i ≤ items.length, token ≠ toString i) :
      Refused doc (parent ++ [token]) (.invalidIndex (Pointer.format (parent ++ [token])))

/-! ## At the parent -/

section Parent

variable {parent value : Json} {token : String} {fault : WriteFault}

/-- An array has no place beyond the next position. -/
theorem setChild_arr_of_beyond {items : List Json} (hdash : token ≠ "-")
    (hbeyond : ∀ i ≤ items.length, token ≠ toString i) :
    (Json.arr items).setChild token value = .error .noPosition := by
  rw [setChild, if_neg hdash]
  cases hi : Pointer.index? token with
  | none => rfl
  | some i =>
    have hgt : items.length < i := by
      apply Nat.lt_of_not_le
      intro hle
      exact hbeyond i hle (Pointer.index?_eq_some_iff.mp hi)
    simp only [Nat.not_lt_of_gt hgt, Nat.ne_of_gt hgt, if_false]

theorem setChild_arr_eq_error {items : List Json} :
    (Json.arr items).setChild token value = .error fault ↔
      token ≠ "-" ∧ (∀ i ≤ items.length, token ≠ toString i) ∧ fault = .noPosition := by
  constructor
  · intro h
    have hdash : token ≠ "-" := by
      intro hdash
      simp [setChild, hdash] at h
    have hbeyond : ∀ i ≤ items.length, token ≠ toString i := by
      intro i hi htoken
      rw [htoken, setChild_toString hi] at h
      cases h
    rw [setChild_arr_of_beyond hdash hbeyond, Except.error.injEq] at h
    exact ⟨hdash, hbeyond, h.symm⟩
  · intro h
    obtain ⟨hdash, hbeyond, hfault⟩ := h
    rw [setChild_arr_of_beyond hdash hbeyond, hfault]

theorem setChild_eq_error : parent.setChild token value = .error fault ↔
    (parent.IsScalar ∧ fault = .noContainer) ∨
      ∃ items, parent = .arr items ∧ token ≠ "-" ∧ (∀ i ≤ items.length, token ≠ toString i) ∧
        fault = .noPosition := by
  cases parent with
  | arr items => simp [IsScalar, setChild_arr_eq_error]
  | obj fields => simp [IsScalar, setChild]
  | _ => simp [IsScalar, setChild, eq_comm]

end Parent

/-! ## On the way to it -/

section Way

variable {doc child value : Json} {token : String} {path : List String} {fault : WriteFault}

theorem set?_of_step?_eq_none (hpath : path ≠ []) (hstep : doc.step? token = none) :
    doc.set? (token :: path) value = .error .noParent := by
  obtain ⟨next, rest, rfl⟩ := List.exists_cons_of_ne_nil hpath
  simp only [set?, hstep]

/-- A write below a child that is there fails if it does in the child. -/
theorem set?_eq_error_of_step? (hpath : path ≠ []) (hstep : doc.step? token = some child) :
    doc.set? (token :: path) value = .error fault ↔ child.set? path value = .error fault := by
  obtain ⟨next, rest, rfl⟩ := List.exists_cons_of_ne_nil hpath
  rw [set?, hstep]
  dsimp only
  cases child.set? (next :: rest) value with
  | error other => rfl
  | ok result => simp

/-- A write is a change of its parent, if it has one. The document that is held afterwards is the
new one, and the old one if the parent refuses. -/
theorem changeAt_editChild (parent : List String) : ∀ doc : Json,
    changeAt (editChild token value) parent doc =
      match doc.get? parent, doc.set? (parent ++ [token]) value with
      | none, _ => none
      | some _, .ok (old, after) => some (.ok old, after)
      | some _, .error fault => some (.error fault, doc) := by
  induction parent with
  | nil =>
    intro doc
    rw [changeAt, editChild, get?, List.nil_append, set?]
    cases doc.setChild token value <;> rfl
  | cons first rest ih =>
    intro doc
    have hne : rest ++ [token] ≠ [] := List.append_ne_nil_of_right_ne_nil rest (by simp)
    rw [changeAt, get?_cons, List.cons_append]
    cases hstep : doc.step? first with
    | none => rfl
    | some child =>
      rw [Option.bind_some]
      dsimp only
      rw [ih child]
      cases child.get? rest with
      | none => rfl
      | some found =>
        cases hset : child.set? (rest ++ [token]) value with
        | ok result =>
          obtain ⟨old, after⟩ := result
          rw [set?_of_step? hne hstep hset]
        | error fault =>
          -- The child that comes back is the one that was there.
          rw [(set?_eq_error_of_step? hne hstep).mpr hset]
          dsimp only
          rw [replaceChild_of_step? hstep]

end Way

/-- Without a value at the path of its parent a write fails for that reason. -/
theorem set?_concat_of_get?_eq_none {token : String} {value : Json} {parent : List String} :
    ∀ {doc : Json}, doc.get? parent = none →
      doc.set? (parent ++ [token]) value = .error .noParent := by
  induction parent with
  | nil =>
    intro doc h
    cases h
  | cons first rest ih =>
    intro doc h
    have hne : rest ++ [token] ≠ [] := List.append_ne_nil_of_right_ne_nil rest (by simp)
    rw [get?_cons] at h
    cases hstep : doc.step? first with
    | none => exact set?_of_step?_eq_none hne hstep
    | some child =>
      rw [hstep, Option.bind_some] at h
      exact (set?_eq_error_of_step? hne hstep).mpr (ih h)

/-- With one, it fails if the value refuses it. -/
theorem set?_concat_eq_error {token : String} {value found : Json} {fault : WriteFault}
    {parent : List String} : ∀ {doc : Json}, doc.get? parent = some found →
      (doc.set? (parent ++ [token]) value = .error fault ↔
        found.setChild token value = .error fault) := by
  induction parent with
  | nil =>
    intro doc h
    rw [get?, Option.some.injEq] at h
    rw [List.nil_append, set?, h]
  | cons first rest ih =>
    intro doc h
    have hne : rest ++ [token] ≠ [] := List.append_ne_nil_of_right_ne_nil rest (by simp)
    rw [get?_cons] at h
    obtain ⟨child, hstep, hget⟩ := Option.bind_eq_some_iff.mp h
    exact (set?_eq_error_of_step? hne hstep).trans (ih hget)

/-! ## The whole write -/

/-- An edit is a write, and a write that fails leaves the document that is held. -/
theorem edit_eq_set (doc : Json) (path : List String) (value : Json) :
    doc.edit path value =
      match doc.set path value with
      | .ok (old, after) => (.ok old, after)
      | .error error => (.error error, doc) := by
  rcases List.eq_nil_or_concat path with hpath | ⟨parent, token, hpath⟩
  · rw [hpath]
    rfl
  · rw [hpath, List.concat_eq_append, edit, List.getLast?_concat, List.dropLast_concat, set]
    dsimp only
    rw [changeAt_editChild]
    cases hget : doc.get? parent with
    | none =>
      rw [set?_concat_of_get?_eq_none hget]
      rfl
    | some found =>
      cases doc.set? (parent ++ [token]) value <;> rfl

/-- Which writes fail, and with which error. -/
theorem set_eq_error {doc value : Json} {path : List String} {error : PointerError} :
    doc.set path value = .error error ↔ doc.Refused path error := by
  rw [set, mapError_eq_error]
  constructor
  · intro h
    obtain ⟨fault, hset, herror⟩ := h
    rcases List.eq_nil_or_concat path with hpath | ⟨parent, token, hpath⟩
    · rw [hpath] at hset
      cases hset
    rw [List.concat_eq_append] at hpath
    rw [hpath] at hset
    rw [← herror, hpath]
    cases hget : doc.get? parent with
    | none =>
      rw [set?_concat_of_get?_eq_none hget, Except.error.injEq] at hset
      rw [← hset, WriteFault.toPointerError, List.dropLast_concat]
      exact .noParent hget
    | some found =>
      rw [set?_concat_eq_error hget, setChild_eq_error] at hset
      rcases hset with ⟨hscalar, rfl⟩ | ⟨items, rfl, hdash, hbeyond, rfl⟩
      · rw [WriteFault.toPointerError, List.dropLast_concat]
        exact .noContainer hget hscalar
      · exact .noPosition hget hdash hbeyond
  · intro h
    cases h with
    | noParent missing =>
      refine ⟨.noParent, set?_concat_of_get?_eq_none missing, ?_⟩
      rw [WriteFault.toPointerError, List.dropLast_concat]
    | noContainer there scalar =>
      refine ⟨.noContainer, (set?_concat_eq_error there).mpr ?_, ?_⟩
      · exact setChild_eq_error.mpr (.inl ⟨scalar, rfl⟩)
      · rw [WriteFault.toPointerError, List.dropLast_concat]
    | noPosition there noAppend beyond =>
      refine ⟨.noPosition, (set?_concat_eq_error there).mpr ?_, rfl⟩
      exact setChild_eq_error.mpr (.inr ⟨_, rfl, noAppend, beyond, rfl⟩)

/-- **When a write fails**: exactly for one of the reasons of `Refused`, with the error that belongs
to it. An edit fails exactly then too, and the document that is held is the one that it was. -/
theorem refused_iff_and_unchanged (doc : Json) (path : List String) (value : Json)
    (error : PointerError) :
    (doc.set path value = .error error ↔ doc.Refused path error) ∧
    ∀ after, doc.edit path value = (.error error, after) ↔
      doc.Refused path error ∧ after = doc := by
  refine ⟨set_eq_error, fun after => ?_⟩
  rw [edit_eq_set, ← @set_eq_error doc value path error]
  cases doc.set path value with
  | ok result => simp
  | error other => simp [eq_comm]

/-- Below a scalar there is no parent, so a scalar above the parent is not what is named. -/
example (n : Number) : (Json.obj [("n", .num n)]).edit ["n", "x", "y"] .null =
    (.error (.notFound "/n/x"), .obj [("n", .num n)]) := rfl

end DocumentRules.Json
