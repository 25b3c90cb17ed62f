import DocumentRules.Pointer.Path

/-!
# Positions have one spelling

`Pointer.index?` reads the position that a token names. The main statement, `index?_eq_some_iff`,
says which token that is: the decimal text of the position, and nothing else. Two tokens for one
position are therefore equal, which is what lets a write at one token leave all other tokens alone.
-/

set_option autoImplicit false

namespace DocumentRules.Pointer

theorem digitChar_of_isDigit {c : Char} (h : c.isDigit = true) :
    c.toNat - 48 < 10 ∧ (c.toNat - 48).digitChar = c := by
  have hrange : 48 ≤ c.toNat ∧ c.toNat ≤ 57 := Char.isDigit_iff_toNat.mp h
  have hlt : c.toNat - 48 < 10 := by omega
  refine ⟨hlt, Char.toNat_inj.mp ?_⟩
  rw [Nat.toNat_digitChar_of_lt_ten hlt]
  omega

/-- Reading on from a positive number appends the digits that are read to its own. A zero has no
digits to append to, so the first digit is treated apart below. -/
theorem toDigits_ofDigitChars_of_pos {cs : List Char} (hcs : cs.all Char.isDigit = true) :
    ∀ {n : Nat}, 0 < n → Nat.toDigits 10 (Nat.ofDigitChars 10 cs n) = Nat.toDigits 10 n ++ cs := by
  induction cs with
  | nil => intro n _; simp
  | cons c rest ih =>
    intro n hn
    simp only [List.all_cons, Bool.and_eq_true] at hcs
    obtain ⟨hlt, hc⟩ := digitChar_of_isDigit hcs.1
    have happ := Nat.toDigits_append_toDigits (b := 10) (by decide) hn hlt
    rw [Nat.toDigits_of_lt_base hlt, hc] at happ
    have hstep : Nat.ofDigitChars 10 (c :: rest) n =
        Nat.ofDigitChars 10 rest (10 * n + (c.toNat - 48)) := by
      simp [Nat.ofDigitChars_cons]
    rw [hstep, ih hcs.2 (by omega), ← happ, List.append_assoc, List.singleton_append]

/-- Digits that do not begin with a zero are the digits of the number they are read as. -/
theorem toDigits_ofDigitChars {c : Char} {rest : List Char} (hc : c ≠ '0')
    (hcs : (c :: rest).all Char.isDigit = true) :
    Nat.toDigits 10 (Nat.ofDigitChars 10 (c :: rest) 0) = c :: rest := by
  simp only [List.all_cons, Bool.and_eq_true] at hcs
  obtain ⟨hlt, hchar⟩ := digitChar_of_isDigit hcs.1
  have hpos : 0 < c.toNat - 48 := by
    rcases Nat.eq_zero_or_pos (c.toNat - 48) with h0 | h0
    · rw [h0] at hchar
      exact absurd hchar.symm hc
    · exact h0
  have hstep : Nat.ofDigitChars 10 (c :: rest) 0 = Nat.ofDigitChars 10 rest (c.toNat - 48) := by
    simp [Nat.ofDigitChars_cons]
  rw [hstep, toDigits_ofDigitChars_of_pos hcs.2 hpos, Nat.toDigits_of_lt_base hlt, hchar,
    List.singleton_append]

theorem toDigits_head_ne_zero {n : Nat} (hn : 0 < n) {c : Char} {rest : List Char}
    (h : Nat.toDigits 10 n = c :: rest) : c ≠ '0' := by
  induction n using Nat.strongRecOn generalizing rest with
  | ind n ih =>
    by_cases hlt : n < 10
    · rw [Nat.toDigits_of_lt_base hlt] at h
      have hc : n.digitChar = c := (List.cons.inj h).1
      rw [← hc]
      intro h0
      exact absurd (Nat.digitChar_eq_zero.mp h0) (by omega)
    · rw [Nat.toDigits_of_base_le (by decide) (by omega)] at h
      -- The first digit is the first one of the number without its last digit.
      cases hd : Nat.toDigits 10 (n / 10) with
      | nil => exact absurd hd Nat.toDigits_ne_nil
      | cons d ds =>
        rw [hd, List.cons_append] at h
        have hdc : d = c := (List.cons.inj h).1
        exact ih (n / 10) (by omega) (by omega) (hdc ▸ hd)

/-- The position a decimal text names is the number it is the text of. -/
theorem index?_toString (i : Nat) : index? (toString i) = some i := by
  rcases Nat.eq_zero_or_pos i with rfl | hi
  · rfl
  have hlist : (toString i).toList = Nat.toDigits 10 i := by
    rw [Nat.toString_eq_repr, Nat.toList_repr]
  have hall : (Nat.toDigits 10 i).all Char.isDigit = true :=
    List.all_eq_true.mpr fun _ => Nat.isDigit_of_mem_toDigits (by decide) (by decide)
  unfold index?
  rw [hlist]
  cases hd : Nat.toDigits 10 i with
  | nil => exact absurd hd Nat.toDigits_ne_nil
  | cons c rest =>
    have hc := toDigits_head_ne_zero hi hd
    rw [hd] at hall
    split
    · next h => simp at h
    · next h => exact absurd (List.cons.inj h).1 hc
    · next h => exact absurd (List.cons.inj h).1 hc
    · rw [if_pos hall, ← hd, Nat.ofDigitChars_ten_toDigits]

/-- The token that appends names no position. -/
theorem index?_dash : index? "-" = none := rfl

/-- A token names a position exactly if it is the decimal text of that position. -/
theorem index?_eq_some_iff {token : String} {i : Nat} :
    index? token = some i ↔ token = toString i := by
  constructor
  · intro h
    apply String.toList_injective
    rw [Nat.toString_eq_repr, Nat.toList_repr]
    unfold index? at h
    split at h
    · exact absurd h (by simp)
    · next hl =>
      have hi : 0 = i := Option.some.inj h
      rw [hl, ← hi]
      rfl
    · exact absurd h (by simp)
    · next hnil hzero hlead =>
      split at h
      · next hall =>
        have hi := Option.some.inj h
        cases hl : token.toList with
        | nil => exact absurd hl hnil
        | cons c rest =>
          rw [hl] at hall hi
          have hc : c ≠ '0' := fun h0 => hlead rest (by rw [hl, h0])
          rw [← hi, toDigits_ofDigitChars hc hall]
      · exact absurd h (by simp)
  · rintro rfl
    exact index?_toString i

end DocumentRules.Pointer
