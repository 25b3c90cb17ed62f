import DocumentRules.Proofs.Decimal.Nearest
import DocumentRules.Proofs.Decimal.Rank

/-!
# The values of doubles

A double is tied here to the number that it is (`Double.HasValue`). An infinity is tied to the
number that would come after the last double, which is its place, so that doubles are compared as
their values are, without an exception (`HasValue.lt_iff`, `HasValue.le_iff`). Only NaN has no
value. Two doubles have one value only if they are one double or zeros of both signs
(`eq_or_zeros_of_beq`).

What comes nearest to a number is found by distances (`Double.Nearest`). Two things follow from it.
A number that is a double is its own nearest double and has no other (`Nearest.hasValue`); and
rounding does not go past a double on the way (`Nearest.le_of_le`).
-/

set_option autoImplicit false

namespace DocumentRules

namespace Double

open Float.Model (UnpackedFloat Format)
open Float.Model.UnpackedFloat

/-! ## Values -/

/-- A rational number with a sign. -/
def signed (sign : Sign) (q : ℚ) : ℚ :=
  match sign with
  | .negative => -q
  | .positive => q

/-- The number that a double is, once it is unpacked. -/
inductive Denotes : UnpackedFloat → ℚ → Prop
  | zero (sign : Sign) : Denotes (.zero sign) 0
  | finite (sign : Sign) {m : ℕ} {e : ℤ} (held : Held ⟨false, m, e⟩) (hlast : e ≤ 971)
      (hpos : 0 < m) : Denotes (.finite sign m e hpos) (signed sign (Binary.size ⟨false, m, e⟩))
  | infinity (sign : Sign) : Denotes (.infinity sign) (signed sign limit)

/-- The number that a double is. -/
def HasValue (x : Float) (q : ℚ) : Prop :=
  Denotes x.toModel.unpack q

variable {m n : ℕ} {e : ℤ} {u v : UnpackedFloat} {p q r : ℚ} {x y : Float} {b c : Binary}

/-- A number has one value. -/
theorem Denotes.value_eq (hp : Denotes u p) (hq : Denotes u q) : p = q := by
  cases hp <;> cases hq <;> rfl

theorem value_zero (negative : Bool) (e : ℤ) : Binary.value ⟨negative, 0, e⟩ = 0 := by
  simp [Binary.value, Binary.size]

theorem value_eq_signed (sign : Sign) (m : ℕ) (e : ℤ) :
    Binary.value ⟨sign == .negative, m, e⟩ = signed sign (Binary.size ⟨false, m, e⟩) := by
  cases sign <;> rfl

/-- The value of a double is that of its place. -/
theorem hasValue_of_place? (h : place? x = some b) : HasValue x b.value := by
  unfold HasValue
  have hheld := held_of_place? h
  unfold place? at h
  cases hx : x.toModel.unpack with
  | notANumber =>
    rw [hx] at h
    cases h
  | zero sign =>
    rw [hx] at h
    obtain rfl := Option.some.inj h
    rw [value_zero]
    exact .zero sign
  | infinity sign =>
    rw [hx] at h
    obtain rfl := Option.some.inj h
    rw [value_eq_signed, size_infinity]
    exact .infinity sign
  | finite sign m e hm =>
    rw [hx] at h
    obtain rfl := Option.some.inj h
    rw [value_eq_signed]
    exact .finite sign (held_of_unpack false hx).1 (held_of_unpack false hx).2 hm

theorem HasValue.place? (h : HasValue x q) : ∃ b, place? x = some b ∧ b.value = q := by
  have hnumber : x.toModel.unpack ≠ .notANumber := by
    intro hnan
    unfold HasValue at h
    rw [hnan] at h
    cases h
  obtain ⟨b, hb⟩ := exists_place? hnumber
  exact ⟨b, hb, (hasValue_of_place? hb).value_eq h⟩

/-- A finite double has the value of its parts. -/
theorem hasValue_of_isFinite (h : x.isFinite = true) :
    HasValue x (((Binary.ofFloat? x).map Binary.value).getD 0) := by
  change x.toModel.unpack.isFinite = true at h
  unfold HasValue Binary.ofFloat?
  cases hx : x.toModel.unpack with
  | notANumber | infinity sign =>
    rw [hx] at h
    cases h
  | zero sign =>
    show Denotes _ (Binary.value ⟨sign == .negative, 0, 0⟩)
    rw [value_zero]
    exact .zero sign
  | finite sign m e hpos =>
    show Denotes _ (Binary.value ⟨sign == .negative, m, e⟩)
    rw [value_eq_signed]
    exact .finite sign (held_of_unpack false hx).1 (held_of_unpack false hx).2 hpos

/-- The opposite double has the opposite value. -/
theorem HasValue.neg (h : HasValue x q) : HasValue (-x) (-q) := by
  obtain ⟨b, hb, rfl⟩ := h.place?
  rw [← value_flip]
  exact hasValue_of_place? (by rw [place?_neg, hb]; rfl)

theorem HasValue.isFinite (h : HasValue x q) (hq : |q| < limit) : x.isFinite = true := by
  obtain ⟨b, hb, rfl⟩ := h.place?
  rw [b.abs_value] at hq
  exact (size_le_of_place? hb).2.mpr hq

/-! ## Comparison -/

theorem limit_pos : 0 < limit :=
  mul_pos (by norm_num) (step_pos _)

/-- In size doubles are in the order of their exponents, and where these agree in that of their
mantissas. -/
theorem Held.compare_size (hb : Held b) (hc : Held c) :
    compare b.size c.size =
      (compare b.exponent c.exponent).then (compare b.mantissa c.mantissa) := by
  rcases lt_trichotomy b.exponent c.exponent with hlt | heq | hgt
  · rw [compare_lt_iff_lt.mpr hlt, compare_lt_iff_lt.mpr (hb.size_lt_of_lt hc hlt)]
    rfl
  · have hpow := step_pos c.exponent
    rw [compare_eq_iff_eq.mpr heq, Binary.size, Binary.size, heq]
    rcases lt_trichotomy b.mantissa c.mantissa with hlt | heq | hgt
    · rw [compare_lt_iff_lt.mpr hlt, compare_lt_iff_lt.mpr
        (mul_lt_mul_of_pos_right (by exact_mod_cast hlt) hpow)]
      rfl
    · rw [heq, compare_eq_iff_eq.mpr rfl, compare_eq_iff_eq.mpr rfl]
      rfl
    · rw [compare_gt_iff_gt.mpr hgt, compare_gt_iff_gt.mpr
        (mul_lt_mul_of_pos_right (by exact_mod_cast hgt) hpow)]
      rfl
  · rw [compare_gt_iff_gt.mpr hgt, compare_gt_iff_gt.mpr (hc.size_lt_of_lt hb hgt)]
    rfl

theorem compare_neg_neg (p q : ℚ) : compare (-p) (-q) = (compare p q).swap := by
  rcases lt_trichotomy p q with h | h | h
  · rw [compare_lt_iff_lt.mpr h, compare_gt_iff_gt.mpr (neg_lt_neg h)]
    rfl
  · rw [h, compare_eq_iff_eq.mpr rfl, compare_eq_iff_eq.mpr rfl]
    rfl
  · rw [compare_gt_iff_gt.mpr h, compare_lt_iff_lt.mpr (neg_lt_neg h)]
    rfl

theorem size_bounds (held : Held ⟨false, m, e⟩) (hlast : e ≤ 971) (hpos : 0 < m) :
    0 < Binary.size ⟨false, m, e⟩ ∧ Binary.size ⟨false, m, e⟩ < limit :=
  ⟨mul_pos (Nat.cast_pos.mpr hpos) (step_pos _), held.size_lt hlast⟩

/-- Doubles are compared as the numbers that they are. -/
theorem Denotes.compare (hu : Denotes u p) (hv : Denotes v q) :
    u.compare v = some (compare p q) := by
  have hlt : ∀ {p q : ℚ}, p < q → some Ordering.lt = some (Ord.compare p q) := fun h => by
    rw [compare_lt_iff_lt.mpr h]
  have hgt : ∀ {p q : ℚ}, q < p → some Ordering.gt = some (Ord.compare p q) := fun h => by
    rw [compare_gt_iff_gt.mpr h]
  have heq : ∀ {p q : ℚ}, p = q → some Ordering.eq = some (Ord.compare p q) := fun h => by
    rw [compare_eq_iff_eq.mpr h]
  have hlimit := limit_pos
  cases hu with
  | zero s =>
    cases hv with
    | zero t => exact heq rfl
    | finite t held hlast hpos =>
      have hsize := size_bounds held hlast hpos
      cases t
      · exact hgt (neg_lt_zero.mpr hsize.1)
      · exact hlt hsize.1
    | infinity t =>
      cases t
      · exact hgt (neg_lt_zero.mpr hlimit)
      · exact hlt hlimit
  | finite s held hlast hpos =>
    have hsize := size_bounds held hlast hpos
    cases hv with
    | zero t =>
      cases s
      · exact hlt (neg_lt_zero.mpr hsize.1)
      · exact hgt hsize.1
    | finite t held' hlast' hpos' =>
      have hsize' := size_bounds held' hlast' hpos'
      have hsizes := held.compare_size held'
      cases s <;> cases t
      · show some _ = some (Ord.compare (-_) (-_))
        rw [compare_neg_neg, hsizes]
      · exact hlt ((neg_lt_zero.mpr hsize.1).trans hsize'.1)
      · exact hgt ((neg_lt_zero.mpr hsize'.1).trans hsize.1)
      · exact congrArg some hsizes.symm
    | infinity t =>
      cases s <;> cases t
      · exact hgt (neg_lt_neg hsize.2)
      · exact hlt ((neg_lt_zero.mpr hsize.1).trans hlimit)
      · exact hgt ((neg_lt_zero.mpr hlimit).trans hsize.1)
      · exact hlt hsize.2
  | infinity s =>
    cases hv with
    | zero t =>
      cases s
      · exact hlt (neg_lt_zero.mpr hlimit)
      · exact hgt hlimit
    | finite t held hlast hpos =>
      have hsize := size_bounds held hlast hpos
      cases s <;> cases t
      · exact hlt (neg_lt_neg hsize.2)
      · exact hlt ((neg_lt_zero.mpr hlimit).trans hsize.1)
      · exact hgt ((neg_lt_zero.mpr hsize.1).trans hlimit)
      · exact hgt hsize.2
    | infinity t =>
      cases s <;> cases t
      · exact heq rfl
      · exact hlt (neg_lt_self hlimit)
      · exact hgt (neg_lt_self hlimit)
      · exact heq rfl

theorem HasValue.lt_iff (hx : HasValue x p) (hy : HasValue y q) : x < y ↔ p < q := by
  have hlt : x < y ↔ (x.toModel.unpack.compare y.toModel.unpack == some .lt) = true := by
    show decide ((x.toModel.unpack.compare y.toModel.unpack == some .lt) = true) = true ↔ _
    rw [decide_eq_true_eq]
  rw [hlt, hx.compare hy, beq_iff_eq, Option.some.injEq, compare_lt_iff_lt]

theorem HasValue.le_iff (hx : HasValue x p) (hy : HasValue y q) : x ≤ y ↔ p ≤ q := by
  have hle : x ≤ y ↔ (x.toModel.unpack.compare y.toModel.unpack).any (·.isLE) = true := by
    show decide ((x.toModel.unpack.compare y.toModel.unpack).any (·.isLE) = true) = true ↔ _
    rw [decide_eq_true_eq]
  rw [hle, hx.compare hy, Option.any_some, Std.LawfulBCmp.isLE_iff_le]

theorem HasValue.beq_iff (hx : HasValue x p) (hy : HasValue y q) : (x == y) = true ↔ p = q := by
  show (x.toModel.unpack.compare y.toModel.unpack == some .eq) = true ↔ _
  rw [hx.compare hy, beq_iff_eq, Option.some.injEq, compare_eq_iff_eq]

/-- Only the two zeros have the value zero. -/
theorem eq_zero_of_value (hb : place? x = some b) (hvalue : b.value = 0) : x = 0 ∨ x = -0 := by
  have hmantissa : b.mantissa = 0 := by
    have hsize : b.size = 0 := by rw [← b.abs_value, hvalue, abs_zero]
    exact_mod_cast (mul_eq_zero.mp hsize).resolve_right (step_pos _).ne'
  have hleast : b.exponent = -1074 := by
    refine (held_of_place? hb).full.resolve_right ?_
    rw [hmantissa]
    exact Nat.not_le_of_gt (Nat.two_pow_pos 52)
  obtain ⟨negative, m, e⟩ := b
  dsimp only at hmantissa hleast
  subst hmantissa hleast
  cases negative
  · exact .inl (place?_inj hb rfl)
  · exact .inr (place?_inj hb rfl)

/-- **Doubles are equal if they are one double or zeros of both signs.** -/
theorem eq_or_zeros_of_beq (h : (x == y) = true) :
    x = y ∨ (x = 0 ∧ y = -0) ∨ (x = -0 ∧ y = 0) := by
  have hcompare : x.toModel.unpack.compare y.toModel.unpack = some .eq := eq_of_beq h
  have hx : x.toModel.unpack ≠ .notANumber := by
    intro hnan
    rw [hnan] at hcompare
    cases hu : y.toModel.unpack <;> rw [hu] at hcompare <;> cases hcompare
  have hy : y.toModel.unpack ≠ .notANumber := by
    intro hnan
    rw [hnan] at hcompare
    cases hu : x.toModel.unpack <;> rw [hu] at hcompare <;> cases hcompare
  obtain ⟨b, hb⟩ := exists_place? hx
  obtain ⟨c, hc⟩ := exists_place? hy
  have hvalue := ((hasValue_of_place? hb).beq_iff (hasValue_of_place? hc)).mp h
  by_cases hzero : b.value = 0
  · rcases eq_zero_of_value hb hzero with hx | hx <;>
      rcases eq_zero_of_value hc (hvalue ▸ hzero) with hy | hy
    · exact .inl (hx.trans hy.symm)
    · exact .inr (.inl ⟨hx, hy⟩)
    · exact .inr (.inr ⟨hx, hy⟩)
    · exact .inl (hx.trans hy.symm)
  · have hpos : 0 < b.mantissa := by
      refine Nat.pos_of_ne_zero fun hmantissa => hzero ?_
      rw [← value_zero b.negative b.exponent, ← hmantissa]
    obtain rfl := (held_of_place? hb).eq_of_value_eq (held_of_place? hc) hpos hvalue
    exact .inl (place?_inj hb hc)

/-! ## Nearest doubles -/

/-- A double is nearest to itself. -/
theorem HasValue.nearest (h : HasValue x q) : Nearest q x := by
  obtain ⟨b, hb, rfl⟩ := h.place?
  refine ⟨b, hb, fun y c _ => ?_⟩
  rw [sub_self, abs_zero]
  exact ⟨abs_nonneg _, fun htie => .inl (sub_eq_zero.mp (abs_eq_zero.mp htie))⟩

/-- A number that is a double has no other nearest double. -/
theorem Nearest.hasValue (h : Nearest q x) (hy : HasValue y q) : HasValue x q := by
  obtain ⟨b, hb, -⟩ := id h
  obtain ⟨c, hc, rfl⟩ := hy.place?
  rw [← h.value_eq hy.nearest hb hc]
  exact hasValue_of_place? hb

/-- The nearest double does not lie beyond another one. -/
theorem Nearest.le_of_le (h : Nearest q x) (hx : HasValue x p) (hy : HasValue y r)
    (hle : r ≤ q) : r ≤ p := by
  obtain ⟨b, hb, hall⟩ := h
  obtain ⟨c, hc, rfl⟩ := hy.place?
  obtain rfl := hx.value_eq (hasValue_of_place? hb)
  by_contra hlt
  have hnear := (hall y c hc).1
  rw [abs_of_nonpos (by linarith), abs_of_nonpos (by linarith)] at hnear
  linarith

theorem Nearest.ge_of_ge (h : Nearest q x) (hx : HasValue x p) (hy : HasValue y r)
    (hle : q ≤ r) : p ≤ r := by
  have hopposite := h.neg.le_of_le hx.neg hy.neg (neg_le_neg hle)
  exact neg_le_neg_iff.mp hopposite

end Double

end DocumentRules
