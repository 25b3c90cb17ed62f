import DocumentRules.Fault
import DocumentRules.Proofs.Result

/-!
# Fields that are read

Reading a field gives back what the field holds, and both parsers are followed through these
readings alone: what a reading gives says what the object holds, and the other way round. A reading
that fails finds fault with the form of the object and with nothing else.
-/

set_option autoImplicit false

namespace DocumentRules.Fields

variable {fields : List (String × Json)} {key context found : String} {fault : Fault}

theorem text?_eq_none_iff : text? fields key = .ok none ↔ fields.lookup key = none := by
  unfold text?
  cases h : fields.lookup key with
  | none => simp
  | some doc => cases doc <;> simp

theorem text?_eq_some_iff :
    text? fields key = .ok (some found) ↔ fields.lookup key = some (.str found) := by
  unfold text?
  cases h : fields.lookup key with
  | none => simp
  | some doc => cases doc <;> simp

theorem text_eq_ok_iff :
    text fields key context = .ok found ↔ fields.lookup key = some (.str found) := by
  rw [← text?_eq_some_iff, text, bind_eq_ok]
  constructor
  · intro h
    obtain ⟨read, hread, hfound⟩ := h
    cases read with
    | none => exact absurd hfound (by simp)
    | some text => rw [hread, pure_eq_ok.mp hfound]
  · intro h
    exact ⟨some found, h, rfl⟩

theorem text?_eq_error (h : text? fields key = .error fault) :
    ∃ cause, fault = .structural cause := by
  unfold text? at h
  split at h
  · exact absurd h (by simp)
  · exact absurd h (by simp)
  · exact ⟨_, (Except.error.inj h).symm⟩

theorem text_eq_error (h : text fields key context = .error fault) :
    ∃ cause, fault = .structural cause := by
  rw [text, bind_eq_error] at h
  rcases h with hread | ⟨read, hread, hfound⟩
  · exact text?_eq_error hread
  · cases read with
    | none => exact ⟨_, (Except.error.inj hfound).symm⟩
    | some text => exact absurd hfound (by simp [pure, Except.pure])

end DocumentRules.Fields
