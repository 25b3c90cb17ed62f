import DocumentRules.Json.Printer

/-!
# What a printed value begins with

The first character of a printed value tells what it is. A text opens with a quote, an array and an
object with their brackets, and a number with a minus or a digit: however a number is laid out, one
of its digits or a zero stands in front. So a printed value that begins with a letter is one of the
three words of the format (`Json.render_mem_words`), and no other word is ever printed.
-/

set_option autoImplicit false

namespace DocumentRules

/-- The text begins with a character of some kind. -/
def StartsWith (kind : Char → Bool) (cs : List Char) : Prop :=
  ∃ c, cs.head? = some c ∧ kind c = true

section Digits

variable {kind : Char → Bool} {cs : List Char}

theorem StartsWith.append (h : StartsWith kind cs) (more : List Char) :
    StartsWith kind (cs ++ more) := by
  obtain ⟨c, hhead, hc⟩ := h
  exact ⟨c, by simp [hhead], hc⟩

theorem StartsWith.take (h : StartsWith kind cs) {n : Nat} (hn : n ≠ 0) :
    StartsWith kind (cs.take n) := by
  obtain ⟨c, hhead, hc⟩ := h
  exact ⟨c, by rw [List.head?_take, if_neg hn, hhead], hc⟩

theorem startsWith_toDigits (n : Nat) : StartsWith Char.isDigit (Nat.toDigits 10 n) := by
  cases h : Nat.toDigits 10 n with
  | nil => exact absurd h Nat.toDigits_ne_nil
  | cons c rest =>
    have hc : c ∈ Nat.toDigits 10 n := by simp [h]
    exact ⟨c, rfl, Nat.isDigit_of_mem_toDigits (by decide) (by decide) hc⟩

/-- Text that begins with a digit or a minus begins with no letter. -/
theorem StartsWith.not_letter (h : StartsWith Char.isDigit cs) :
    StartsWith (fun c => !c.isAlpha) cs := by
  obtain ⟨c, hhead, hc⟩ := h
  refine ⟨c, hhead, ?_⟩
  delta Char.isAlpha Char.isUpper Char.isLower
  simp [Char.isDigit, UInt32.le_iff_toNat_le] at hc ⊢
  omega

end Digits

namespace Layout

theorem startsWith_positional (layout : Layout) {digits : List Char}
    (h : StartsWith Char.isDigit digits) (exponent lead : Int) :
    StartsWith Char.isDigit (layout.positional digits exponent lead) := by
  unfold positional
  split
  · rw [List.append_assoc]
    exact h.append _
  · split
    · exact (h.take (by omega)).append _
    · exact ⟨'0', rfl, by decide⟩

theorem startsWith_scientific {digits : List Char} (h : StartsWith Char.isDigit digits)
    (lead : Int) : StartsWith Char.isDigit (scientific digits lead) := by
  unfold scientific
  rw [List.append_assoc]
  exact (h.take Nat.one_ne_zero).append _

theorem startsWith_magnitude (layout : Layout) (d : Decimal) :
    StartsWith Char.isDigit (layout.magnitude d) := by
  have hdigits := startsWith_toDigits d.coefficient
  unfold magnitude
  dsimp only
  split
  · exact startsWith_positional layout hdigits _ _
  · exact startsWith_scientific hdigits _

theorem startsWith_render (layout : Layout) (b : Binary) :
    StartsWith (fun c => !c.isAlpha) (layout.render b) := by
  unfold render
  dsimp only
  split
  · exact ⟨'-', rfl, by decide⟩
  · exact (layout.startsWith_magnitude _).not_letter

end Layout

theorem Binary.isSome_ofFloat? {x : Float} (h : x.isFinite = true) :
    (ofFloat? x).isSome = true := by
  have hmodel : x.toModel.unpack.isFinite = true := h
  unfold ofFloat?
  split
  · rfl
  · rfl
  · next hinfinite =>
    rw [hinfinite] at hmodel
    exact absurd hmodel Bool.false_ne_true
  · next hnan =>
    rw [hnan] at hmodel
    exact absurd hmodel Bool.false_ne_true

theorem Number.startsWith_render (n : Number) :
    StartsWith (fun c => !c.isAlpha) n.render.toList := by
  cases n with
  | int n =>
    cases n with
    | ofNat m =>
      show StartsWith _ m.repr.toList
      rw [Nat.toList_repr]
      exact (startsWith_toDigits m).not_letter
    | negSucc m =>
      show StartsWith _ ("-" ++ m.succ.repr).toList
      exact ⟨'-', by simp, by decide⟩
  | double x finite =>
    obtain ⟨b, hb⟩ := Option.isSome_iff_exists.mp (Binary.isSome_ofFloat? finite)
    rw [render, Layout.format, hb]
    simpa using Layout.document.startsWith_render b

/-- **Only three words are ever printed**: any other value begins with no letter. -/
theorem Json.render_mem_words {doc : Json} (h : StartsWith Char.isAlpha doc.render.toList) :
    doc.render ∈ ["null", "true", "false"] := by
  obtain ⟨c, hhead, hc⟩ := h
  cases doc with
  | null => simp [render]
  | bool value => cases value <;> simp [render]
  | num n =>
    obtain ⟨d, hd, hletter⟩ := n.startsWith_render
    rw [render, hd, Option.some.injEq] at hhead
    simp [hhead, hc] at hletter
  | str text =>
    rw [render, quoted, String.toList_ofList, List.cons_append, List.head?_cons,
      Option.some.injEq] at hhead
    exact absurd (hhead ▸ hc) (by decide)
  | arr items =>
    simp [render] at hhead
    exact absurd (hhead ▸ hc) (by decide)
  | obj fields =>
    simp [render] at hhead
    exact absurd (hhead ▸ hc) (by decide)

end DocumentRules
