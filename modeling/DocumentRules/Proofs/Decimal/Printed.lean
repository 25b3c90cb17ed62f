import DocumentRules.Proofs.Decimal.Interval
import DocumentRules.Proofs.Decimal.NumericText
import DocumentRules.Proofs.Json.Render

/-!
# A double that is written reads as before

However a decimal is laid out, with zeros behind its digits or in front of them, with the point
among them or with an exponent, the text is a literal and the literal has the number of the decimal
(`Layout.exists_prints`). So it is read as the double nearest to that number, and for the shortest
decimal of a double this is the double itself (`Layout.numericText?_plain_format`).

Negative zero is the exception: as a text of its own it has no sign, and it
is read as the other zero.
-/

set_option autoImplicit false

namespace DocumentRules

/-! ## Digits -/

namespace Literal

variable {ds : List Char} {n : ℕ}

theorem run_toDigits (n : ℕ) : Run Char.isDigit (Nat.toDigits 10 n) :=
  fun _ hc => Nat.isDigit_of_mem_toDigits (by decide) (by decide) hc

theorem value_toDigits (n : ℕ) : Numeral.value (Nat.toDigits 10 n) = n :=
  Nat.ofDigitChars_ten_toDigits

theorem run_zeros (n : ℕ) : Run Char.isDigit (List.replicate n '0') := by
  intro c hc
  rw [List.eq_of_mem_replicate hc]
  rfl

theorem value_zeros (n : ℕ) : Numeral.value (List.replicate n '0') = 0 := by
  induction n with
  | zero => rfl
  | succ n ih =>
    rw [List.replicate_succ', value_append, ih]
    rfl

theorem run_append {fs : List Char} (hds : Run Char.isDigit ds) (hfs : Run Char.isDigit fs) :
    Run Char.isDigit (ds ++ fs) :=
  fun _ hc => (List.mem_append.mp hc).elim (hds _) (hfs _)

/-! ## Texts of decimals -/

/-- The text is that of the literal but for the sign, and the number is that of the decimal. -/
structure Prints (l : Literal) (cs : List Char) (d : Decimal) : Prop where
  text : ∃ body tail, cs = body ++ tail ∧ PointText Char.isDigit body l.whole l.fraction ∧
    ExponentText Char.isDigit tail l.lowered l.exponent
  number : l.numeral.magnitude.value = d.value

variable {l : Literal} {cs sign : List Char} {d : Decimal}

theorem Prints.spelledAs (h : l.Prints cs d) (hsign : SignText sign l.negative) :
    l.SpelledAs Char.isDigit (sign ++ cs) := by
  obtain ⟨body, tail, rfl, hpoint, hexponent⟩ := h.text
  exact ⟨sign, body, tail, (List.append_assoc _ _ _).symm, hsign, hpoint, hexponent⟩

theorem Prints.value_eq (h : l.Prints cs d) :
    l.value = if l.negative then -d.value else d.value := by
  rw [← l.number_numeral, ← h.number]
  rfl

/-- Digits around a point, without an exponent. -/
theorem prints_point {body : List Char} (hpoint : PointText Char.isDigit body l.whole l.fraction)
    (hlowered : l.lowered = false) (hexponent : l.exponent = [])
    (hvalue :
      (Numeral.value (l.whole ++ l.fraction) : ℚ) * 10 ^ (-l.fraction.length : ℤ) = d.value) :
    l.Prints body d := by
  refine ⟨⟨body, [], (List.append_nil _).symm, hpoint, ?_⟩, ?_⟩
  · rw [hlowered, hexponent]
    exact .absent
  · have hpower : l.power = 0 := by
      rw [power, hlowered, hexponent]
      rfl
    rw [← hvalue, numeral, hpower, zero_sub]
    rfl

end Literal

namespace Layout

open Literal

variable {digits : List Char} {c : ℕ} {exponent lead : ℤ}

/-! ## Layouts -/

/-- A whole number: zeros follow the digits. -/
theorem prints_whole (layout : Layout) (hne : digits ≠ []) (hrun : Run Char.isDigit digits)
    (hvalue : Numeral.value digits = c) (k : ℕ) (negative : Bool) :
    ∃ l : Literal, l.negative = negative ∧
      l.Prints
        (digits ++ List.replicate k '0' ++ if layout.pointed then ['.', '0'] else []) ⟨c, k⟩ := by
  have hzeros : digits ++ List.replicate k '0' ≠ [] := List.append_ne_nil_of_left_ne_nil hne _
  have hrunZeros := run_append hrun (run_zeros k)
  have hwhole : Numeral.value (digits ++ List.replicate k '0') = c * 10 ^ k := by
    rw [value_append, hvalue, value_zeros, List.length_replicate, Nat.add_zero]
  cases layout.pointed with
  | true =>
    refine ⟨⟨negative, digits ++ List.replicate k '0', ['0'], false, []⟩, rfl, ?_⟩
    refine prints_point (.pointed hzeros hrunZeros (run_zeros 1)) rfl rfl ?_
    have hzero : Numeral.value ['0'] = 0 := rfl
    rw [value_append, hwhole, hzero, Decimal.value]
    push_cast
    simp
  | false =>
    refine ⟨⟨negative, digits ++ List.replicate k '0', [], false, []⟩, rfl, ?_⟩
    rw [if_neg Bool.false_ne_true, List.append_nil]
    refine prints_point (.plain hzeros hrunZeros) rfl rfl ?_
    rw [List.append_nil, hwhole, Decimal.value]
    push_cast
    simp

/-- A number in positional form. -/
theorem prints_positional (layout : Layout) (hne : digits ≠ []) (hrun : Run Char.isDigit digits)
    (hvalue : Numeral.value digits = c) (hlead : lead = exponent + digits.length - 1)
    (negative : Bool) :
    ∃ l : Literal, l.negative = negative ∧
      l.Prints (layout.positional digits exponent lead) ⟨c, exponent⟩ := by
  unfold positional
  split
  · next hexponent =>
    obtain ⟨k, rfl⟩ := Int.eq_ofNat_of_zero_le hexponent
    exact layout.prints_whole hne hrun hvalue k negative
  · next hexponent =>
    split
    · -- the point is among the digits
      next hpoint =>
      have hlength : (digits.drop (lead + 1).toNat).length = -exponent := by
        rw [List.length_drop]
        omega
      have hfront : digits.take (lead + 1).toNat ≠ [] := by
        intro hnil
        rcases List.take_eq_nil_iff.mp hnil with hnone | hdigits
        · omega
        · exact hne hdigits
      refine ⟨⟨negative, digits.take (lead + 1).toNat, digits.drop (lead + 1).toNat, false, []⟩,
        rfl, ?_⟩
      refine prints_point (.pointed hfront (fun d hd => hrun d (List.mem_of_mem_take hd))
        fun d hd => hrun d (List.mem_of_mem_drop hd)) rfl rfl ?_
      rw [List.take_append_drop, hvalue, hlength, neg_neg, Decimal.value]
    · -- zeros are in front of the digits
      next hpoint =>
      refine ⟨⟨negative, ['0'], List.replicate (-lead - 1).toNat '0' ++ digits, false, []⟩, rfl, ?_⟩
      refine prints_point (.pointed (List.cons_ne_nil _ _) (run_zeros 1)
        (run_append (run_zeros _) hrun)) rfl rfl ?_
      have hzero : Numeral.value ['0'] = 0 := rfl
      have hlength : ((List.replicate (-lead - 1).toNat '0' ++ digits).length : ℤ) = -exponent := by
        rw [List.length_append, List.length_replicate]
        omega
      rw [value_append, value_append, hzero, value_zeros, hvalue, zero_mul, zero_mul, zero_add,
        zero_add, hlength, neg_neg, Decimal.value]

/-- The exponent carries its sign, the plus sign too. -/
theorem exponentText_lead (lead : ℤ) :
    ExponentText Char.isDigit
      ('e' :: (if lead < 0 then '-' else '+') :: Nat.toDigits 10 lead.natAbs)
      (decide (lead < 0)) (Nat.toDigits 10 lead.natAbs) := by
  have hsign : SignText [if lead < 0 then '-' else '+'] (decide (lead < 0)) := by
    by_cases hnegative : lead < 0
    · rw [if_pos hnegative, decide_eq_true hnegative]
      exact .minus
    · rw [if_neg hnegative, decide_eq_false hnegative]
      exact .plus
  exact .marked (.inl rfl) hsign Nat.toDigits_ne_nil (run_toDigits _)

/-- A number with an exponent. -/
theorem prints_scientific (hne : digits ≠ []) (hrun : Run Char.isDigit digits)
    (hvalue : Numeral.value digits = c) (hlead : lead = exponent + digits.length - 1)
    (negative : Bool) :
    ∃ l : Literal, l.negative = negative ∧ l.Prints (scientific digits lead) ⟨c, exponent⟩ := by
  refine ⟨⟨negative, digits.take 1, digits.drop 1, decide (lead < 0),
    Nat.toDigits 10 lead.natAbs⟩, rfl, ⟨?_, ?_⟩⟩
  · have hfirst : digits.take 1 ≠ [] := by
      intro hnil
      exact hne ((List.take_eq_nil_iff.mp hnil).resolve_left Nat.one_ne_zero)
    have hrunFirst : Run Char.isDigit (digits.take 1) := fun d hd =>
      hrun d (List.mem_of_mem_take hd)
    have hrunRest : Run Char.isDigit (digits.drop 1) := fun d hd => hrun d (List.mem_of_mem_drop hd)
    unfold scientific
    dsimp only
    split
    · next hrest =>
      rw [hrest, List.append_nil]
      exact ⟨digits.take 1, _, rfl, .plain hfirst hrunFirst, exponentText_lead lead⟩
    · exact ⟨digits.take 1 ++ '.' :: digits.drop 1, _, rfl, .pointed hfirst hrunFirst hrunRest,
        exponentText_lead lead⟩
  · have hpower : Literal.power ⟨negative, digits.take 1, digits.drop 1, decide (lead < 0),
        Nat.toDigits 10 lead.natAbs⟩ = lead := by
      show (if decide (lead < 0) = true then -(Numeral.value (Nat.toDigits 10 lead.natAbs) : ℤ)
        else Numeral.value (Nat.toDigits 10 lead.natAbs)) = lead
      rw [value_toDigits]
      by_cases hnegative : lead < 0
      · rw [decide_eq_true hnegative, if_pos rfl]
        omega
      · rw [decide_eq_false hnegative, if_neg Bool.false_ne_true]
        omega
    have hlength : lead - (digits.drop 1).length = exponent := by
      have hsome := List.length_pos_iff.mpr hne
      rw [List.length_drop]
      omega
    rw [Literal.numeral, hpower]
    dsimp only
    rw [List.take_append_drop, hvalue, hlength]

/-- **However a decimal is laid out, the text is a literal with its number.** -/
theorem exists_prints (layout : Layout) (d : Decimal) (negative : Bool) :
    ∃ l : Literal, l.negative = negative ∧ l.Prints (layout.magnitude d) d := by
  have hne : Nat.toDigits 10 d.coefficient ≠ [] := Nat.toDigits_ne_nil
  have hrun := run_toDigits d.coefficient
  have hvalue := value_toDigits d.coefficient
  unfold magnitude
  dsimp only
  split
  · exact layout.prints_positional hne hrun hvalue rfl negative
  · exact prints_scientific hne hrun hvalue rfl negative

/-- The text of finite parts is a literal. Its number is that of the shortest decimal, with
the sign that is shown. -/
theorem exists_render (layout : Layout) (b : Binary) :
    ∃ l : Literal, l.SpelledAs Char.isDigit (layout.render b) ∧
      l.value = (if b.negative && (layout.signedZero || b.mantissa != 0) then
        -(Decimal.shortest layout.tie b.mantissa b.exponent).value
      else (Decimal.shortest layout.tie b.mantissa b.exponent).value) := by
  obtain ⟨l, hnegative, hprints⟩ := layout.exists_prints
    (Decimal.shortest layout.tie b.mantissa b.exponent)
    (b.negative && (layout.signedZero || b.mantissa != 0))
  refine ⟨l, ?_, by rw [hprints.value_eq, hnegative]⟩
  unfold render
  dsimp only
  split
  · next hsign =>
    have hminus : SignText ['-'] l.negative := by
      rw [hnegative, hsign]
      exact .minus
    exact hprints.spelledAs hminus
  · next hsign =>
    have habsent : SignText [] l.negative := by
      rw [hnegative, Bool.eq_false_iff.mpr hsign]
      exact .absent
    exact hprints.spelledAs habsent

end Layout

/-! ## Reading back -/

namespace Double

variable {x : Float} {b : Binary}

/-- A double is placed where its parts are, and zero apart they are the same. -/
theorem place?_of_parts (h : Binary.ofFloat? x = some b) (hpos : 0 < b.mantissa) :
    place? x = some b := by
  unfold place?
  rw [unpack_of_parts h hpos]
  obtain ⟨negative, m, e⟩ := b
  cases negative <;> rfl

theorem beq_zero_of_parts (h : Binary.ofFloat? x = some b) : (x == 0) = (b.mantissa == 0) := by
  have hbeq : (x == 0) = (x.toModel.unpack.compare (.zero .positive) == some .eq) := rfl
  rw [hbeq]
  rcases Nat.eq_zero_or_pos b.mantissa with hzero | hpos
  · unfold Binary.ofFloat? at h
    cases hx : x.toModel.unpack with
    | notANumber | infinity =>
      rw [hx] at h
      cases h
    | zero => rw [hzero]; rfl
    | finite sign m e hm =>
      rw [hx] at h
      obtain rfl := Option.some.inj h
      exact absurd hzero hm.ne'
  · have hne : (b.mantissa == 0) = false := beq_eq_false_iff_ne.mpr hpos.ne'
    rw [unpack_of_parts h hpos, hne]
    cases signOf b.negative <;> rfl

end Double

namespace Layout

variable {x : Float}

/-- Zero is the digit zero, whatever its sign. -/
theorem render_zero {b : Binary} (h : b.mantissa = 0) : plain.render b = ['0'] := by
  have hshortest : Decimal.shortest plain.tie 0 b.exponent = ⟨0, 0⟩ := if_pos rfl
  unfold render
  rw [h, hshortest]
  cases b.negative <;> rfl

/-- **A finite double that is written as a text of its own reads as before**, but
for the sign of zero. -/
theorem numericText?_plain_format (h : x.isFinite = true) :
    numericText? (plain.format x) = some (if x == 0 then 0 else x) := by
  obtain ⟨b, hb⟩ := Option.isSome_iff_exists.mp (Binary.isSome_ofFloat? h)
  have hformat : plain.format x = String.ofList (plain.render b) := by
    unfold format
    rw [hb]
  rw [hformat, Double.beq_zero_of_parts hb]
  rcases Nat.eq_zero_or_pos b.mantissa with hzero | hpos
  · rw [render_zero hzero, hzero]
    show numericText? "0" = some 0
    decide +kernel
  · obtain ⟨l, hspelled, hvalue⟩ := plain.exists_render b
    have hne : (b.mantissa == 0) = false := beq_eq_false_iff_ne.mpr hpos.ne'
    have hplace := Double.place?_of_parts hb hpos
    have hwithin : Decimal.Within b.mantissa b.exponent
        (Decimal.shortest plain.tie b.mantissa b.exponent).value := Decimal.within_shortest hpos
    have hnearest := hwithin.nearest hplace
    have hshown : (b.negative && (plain.signedZero || b.mantissa != 0)) = b.negative := by
      rw [bne, hne]
      exact Bool.and_true _
    rw [hshown] at hvalue
    rw [← hvalue] at hnearest
    rw [hne, if_neg Bool.false_ne_true, numericText?_of_isTextOf hspelled.isTextOf hnearest h,
      hnearest.eq l.nearest_toFloat hplace hpos]

end Layout

end DocumentRules
