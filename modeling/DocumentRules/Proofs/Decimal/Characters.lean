import DocumentRules.Proofs.Decimal.Values
import DocumentRules.Proofs.Json.Render
import DocumentRules.Value.Equality
import DocumentRules.Value.Text

/-!
# The characters of a number

A number is written with digits, a sign, a point and the mark of an exponent, in a document and as a
text of its own. None of these ends a value in a document, so a number is read off whatever it
stands in as far as these characters go.

Inside a document the characters also tell the kinds apart. A double always has a point or an
exponent there, an integer never has, and a zero shows its sign. So of two numbers that are worth
the same, the spelling inside a document is the same only if they are one number
(`Number.eq_of_render`).
-/

set_option autoImplicit false

namespace DocumentRules

/-- The characters that numbers are written with. -/
def isNumeralChar (c : Char) : Bool :=
  c.isDigit || c == '-' || c == '+' || c == '.' || c == 'e'

/-- The text is made of characters of numbers. -/
def IsNumeral (cs : List Char) : Prop :=
  ∀ c ∈ cs, isNumeralChar c = true

theorem isNumeral_nil : IsNumeral [] :=
  List.forall_mem_nil _

section Parts

variable {cs ds : List Char}

theorem IsNumeral.append (h : IsNumeral cs) (h' : IsNumeral ds) : IsNumeral (cs ++ ds) :=
  List.forall_mem_append.mpr ⟨h, h'⟩

theorem IsNumeral.cons {c : Char} (hc : isNumeralChar c = true) (h : IsNumeral cs) :
    IsNumeral (c :: cs) :=
  List.forall_mem_cons.mpr ⟨hc, h⟩

theorem IsNumeral.take (h : IsNumeral cs) (n : Nat) : IsNumeral (cs.take n) :=
  fun c hc => h c (List.mem_of_mem_take hc)

theorem IsNumeral.drop (h : IsNumeral cs) (n : Nat) : IsNumeral (cs.drop n) :=
  fun c hc => h c (List.mem_of_mem_drop hc)

theorem isNumeral_zeros (n : Nat) : IsNumeral (List.replicate n '0') := by
  intro c hc
  rw [List.eq_of_mem_replicate hc]
  rfl

theorem isNumeral_toDigits (n : Nat) : IsNumeral (Nat.toDigits 10 n) := by
  intro c hc
  have hdigit : c.isDigit = true := Nat.isDigit_of_mem_toDigits (by decide) (by decide) hc
  simp [isNumeralChar, hdigit]

end Parts

/-! ## Doubles -/

namespace Layout

theorem isNumeral_positional (layout : Layout) {digits : List Char} (h : IsNumeral digits)
    (exponent lead : Int) : IsNumeral (layout.positional digits exponent lead) := by
  unfold positional
  split
  · refine (h.append (isNumeral_zeros _)).append ?_
    split
    · exact .cons rfl (.cons rfl isNumeral_nil)
    · exact isNumeral_nil
  · split
    · exact (h.take _).append (.cons rfl (h.drop _))
    · exact (IsNumeral.cons rfl (.cons rfl (isNumeral_zeros _))).append h

theorem isNumeral_scientific {digits : List Char} (h : IsNumeral digits) (lead : Int) :
    IsNumeral (scientific digits lead) := by
  have hsign : isNumeralChar (if lead < 0 then '-' else '+') = true := by
    split <;> rfl
  unfold scientific
  refine ((h.take 1).append ?_).append (.cons rfl (.cons hsign (isNumeral_toDigits _)))
  split
  · exact isNumeral_nil
  · exact .cons rfl (h.drop 1)

theorem isNumeral_render (layout : Layout) (b : Binary) : IsNumeral (layout.render b) := by
  have hmagnitude : ∀ d, IsNumeral (layout.magnitude d) := by
    intro d
    unfold magnitude
    dsimp only
    split
    · exact layout.isNumeral_positional (isNumeral_toDigits _) _ _
    · exact isNumeral_scientific (isNumeral_toDigits _) _
  unfold render
  dsimp only
  split
  · exact .cons rfl (hmagnitude _)
  · exact hmagnitude _

theorem isNumeral_format (layout : Layout) {x : Float} (h : x.isFinite = true) :
    IsNumeral (layout.format x).toList := by
  obtain ⟨b, hb⟩ := Option.isSome_iff_exists.mp (Binary.isSome_ofFloat? h)
  rw [format, hb]
  simpa using layout.isNumeral_render b

/-- In a form that shows doubles as such, a magnitude has a point or the mark of an exponent. -/
theorem exists_mark_magnitude {layout : Layout} (h : layout.pointed = true) (d : Decimal) :
    '.' ∈ layout.magnitude d ∨ 'e' ∈ layout.magnitude d := by
  unfold magnitude
  dsimp only
  split
  · left
    unfold positional
    rw [h]
    split
    · simp
    · split <;> simp
  · right
    simp [scientific]

theorem exists_mark_document {x : Float} (h : x.isFinite = true) :
    '.' ∈ (document.format x).toList ∨ 'e' ∈ (document.format x).toList := by
  obtain ⟨b, hb⟩ := Option.isSome_iff_exists.mp (Binary.isSome_ofFloat? h)
  have hpointed : document.pointed = true := rfl
  have hmark := exists_mark_magnitude hpointed
    (Decimal.shortest document.tie b.mantissa b.exponent)
  rw [format, hb, String.toList_ofList, render]
  split
  · exact hmark.imp (List.mem_cons_of_mem _) (List.mem_cons_of_mem _)
  · exact hmark

end Layout

/-! ## Numbers -/

/-- An integer is written as its digits, behind a minus if it is negative. -/
theorem toList_toString_int (n : Int) :
    (toString n).toList = (if n < 0 then ['-'] else []) ++ Nat.toDigits 10 n.natAbs := by
  cases n with
  | ofNat n =>
    have hsign : ¬ Int.ofNat n < 0 := Int.not_lt.mpr (Int.natCast_nonneg n)
    rw [if_neg hsign]
    exact Nat.toList_repr
  | negSucc n =>
    rw [if_pos (Int.negSucc_lt_zero n)]
    show ("-" ++ Nat.repr (n + 1)).toList = _
    simp [Nat.toList_repr]

theorem isNumeral_toString_int (n : Int) : IsNumeral (toString n).toList := by
  rw [toList_toString_int]
  refine IsNumeral.append ?_ (isNumeral_toDigits _)
  split
  · exact .cons rfl isNumeral_nil
  · exact isNumeral_nil

theorem not_mem_toDigits {c : Char} (hdigit : c.isDigit = false) (n : Nat) :
    c ∉ Nat.toDigits 10 n := by
  intro h
  have hdigit' : c.isDigit = true := Nat.isDigit_of_mem_toDigits (by decide) (by decide) h
  exact Bool.false_ne_true (hdigit.symm.trans hdigit')

/-- An integer has neither a point nor an exponent. -/
theorem not_mem_toString_int {c : Char} (hdigit : c.isDigit = false) (hminus : c ≠ '-') (n : Int) :
    c ∉ (toString n).toList := by
  rw [toList_toString_int]
  intro h
  refine (List.mem_append.mp h).elim (fun hsign => ?_) (not_mem_toDigits hdigit _)
  split at hsign
  · exact hminus (List.mem_singleton.mp hsign)
  · exact List.not_mem_nil hsign

theorem toDigits_inj {m n : Nat} (h : Nat.toDigits 10 m = Nat.toDigits 10 n) : m = n := by
  rw [← Nat.ofDigitChars_ten_toDigits (n := m), h, Nat.ofDigitChars_ten_toDigits]

/-- Two integers with one text are one integer. -/
theorem toString_int_inj {m n : Int} (h : toString m = toString n) : m = n := by
  have hlist := congrArg String.toList h
  have hminus := not_mem_toDigits (c := '-') rfl
  rw [toList_toString_int, toList_toString_int] at hlist
  by_cases hm : m < 0 <;> by_cases hn : n < 0
  · rw [if_pos hm, if_pos hn, List.append_cancel_left_eq] at hlist
    have hsize := toDigits_inj hlist
    omega
  · rw [if_pos hm, if_neg hn, List.nil_append] at hlist
    refine absurd ?_ (hminus n.natAbs)
    rw [← hlist]
    exact List.mem_cons_self
  · rw [if_neg hm, if_pos hn, List.nil_append] at hlist
    refine absurd ?_ (hminus m.natAbs)
    rw [hlist]
    exact List.mem_cons_self
  · rw [if_neg hm, if_neg hn, List.append_cancel_left_eq] at hlist
    have hsize := toDigits_inj hlist
    omega

namespace Number

theorem isNumeral_render (n : Number) : IsNumeral n.render.toList := by
  cases n with
  | int n => exact isNumeral_toString_int n
  | double x hx => exact Layout.document.isNumeral_format hx

theorem isNumeral_text (n : Number) : IsNumeral n.text.toList := by
  cases n with
  | int n => exact isNumeral_toString_int n
  | double x hx => exact Layout.plain.isNumeral_format hx

theorem render_int_ne_double (n : Int) {x : Float} (hx : x.isFinite = true) :
    (int n).render ≠ (double x hx).render := by
  intro h
  change toString n = Layout.document.format x at h
  rcases Layout.exists_mark_document hx with hmark | hmark
  · rw [← h] at hmark
    exact not_mem_toString_int rfl (by decide) n hmark
  · rw [← h] at hmark
    exact not_mem_toString_int rfl (by decide) n hmark

/-- **Inside a document, numbers that are worth the same are spelled the same only if they are one
number**: of one kind, and zeros of one sign. -/
theorem eq_of_render {m n : Number} (hworth : m.sameWorth n = true) (h : m.render = n.render) :
    m = n := by
  cases m with
  | int m =>
    cases n with
    | int n => exact congrArg int (toString_int_inj h)
    | double y hy => exact absurd h (render_int_ne_double m hy)
  | double x hx =>
    cases n with
    | int n => exact absurd h.symm (render_int_ne_double n hx)
    | double y hy =>
      have hzeros : Layout.document.format 0 ≠ Layout.document.format (-0) := by decide +kernel
      change Layout.document.format x = Layout.document.format y at h
      rcases Double.eq_or_zeros_of_beq hworth with rfl | ⟨rfl, rfl⟩ | ⟨rfl, rfl⟩
      · rfl
      · exact absurd h hzeros
      · exact absurd h hzeros.symm

end Number

end DocumentRules
