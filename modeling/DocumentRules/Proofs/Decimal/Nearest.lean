import DocumentRules.Proofs.Decimal.Packing

/-!
# The nearest double

Which double is nearest to a number? `Double.Nearest` says it with distances alone: no other double
is closer, and of two that are equally close it is the one whose mantissa is even. An infinity takes
part with the place of the double that would come after the last one, so a number that is too large
has an infinity as its nearest double. There is one nearest double, as far as the value goes
(`Nearest.value_eq`): the two zeros share a place.

Rounding does not compare distances. It looks for a multiple of a power of two, the nearest one
again, and takes the power so small that a mantissa just has room (`Double.Rounded`). The main
statement is that this finds the nearest double (`Rounded.nearest`). A rival with the same or a
larger exponent is itself a multiple of that power, and one with a smaller exponent has too small
a mantissa to come near.
-/

set_option autoImplicit false

namespace DocumentRules

namespace Double

/-- The double stands nearest to the number. In a tie its mantissa is even and that of the rival is
odd. -/
def Nearest (q : ℚ) (x : Float) : Prop :=
  ∃ b, place? x = some b ∧ ∀ y c, place? y = some c →
    |b.value - q| ≤ |c.value - q| ∧
      (|c.value - q| = |b.value - q| → c.value = b.value ∨ Even b.mantissa ∧ Odd c.mantissa)

variable {q u : ℚ} {x y : Float} {b c : Binary} {r k : ℕ} {t : ℤ}

/-- A number has one nearest double. -/
theorem Nearest.value_eq (hx : Nearest q x) (hy : Nearest q y) (hb : place? x = some b)
    (hc : place? y = some c) : b.value = c.value := by
  obtain ⟨b', hb', hxall⟩ := hx
  obtain ⟨c', hc', hyall⟩ := hy
  obtain rfl : b' = b := Option.some.inj (hb'.symm.trans hb)
  obtain rfl : c' = c := Option.some.inj (hc'.symm.trans hc)
  have hxy := hxall y c' hc
  have hyx := hyall x b' hb
  have htie : |c'.value - q| = |b'.value - q| := le_antisymm hyx.1 hxy.1
  rcases hxy.2 htie with heq | hodd
  · exact heq.symm
  · rcases hyx.2 htie.symm with heq | hodd'
    · exact heq
    · exact absurd hodd.1 (Nat.not_even_iff_odd.mpr hodd'.2)

/-- Two doubles that are nearest to one number are the same one, unless they are zero. -/
theorem Nearest.eq (hx : Nearest q x) (hy : Nearest q y) (hb : place? x = some b)
    (hpos : 0 < b.mantissa) : x = y := by
  obtain ⟨c, hc, -⟩ := id hy
  obtain rfl := (held_of_place? hb).eq_of_value_eq (held_of_place? hc) hpos (hx.value_eq hy hb hc)
  exact place?_inj hb hc

/-- Only the place of a double matters. -/
theorem Nearest.congr (h : Nearest q x) (hplace : place? x = place? y) : Nearest q y := by
  obtain ⟨b, hb, hall⟩ := h
  exact ⟨b, hplace ▸ hb, hall⟩

/-- Far from the infinities a number has a finite nearest double. -/
theorem Nearest.isFinite (h : Nearest q x) (hq : 2 * |q| < limit) : x.isFinite = true := by
  obtain ⟨b, hb, hall⟩ := h
  rw [(size_le_of_place? hb).2, ← b.abs_value]
  have hzero : place? 0 = some ⟨false, 0, -1074⟩ := rfl
  have hdist : |b.value - q| ≤ |q| := by
    have hle := (hall 0 _ hzero).1
    have hvalue : Binary.value ⟨false, 0, -1074⟩ = 0 := by simp [Binary.value, Binary.size]
    rwa [hvalue, zero_sub, abs_neg] at hle
  have hsum : |b.value| ≤ |b.value - q| + |q| := by
    have htriangle := abs_add_le (b.value - q) q
    rwa [sub_add_cancel] at htriangle
  linarith

/-- Of two doubles nearest to one number both are finite or none. -/
theorem Nearest.isFinite_of_isFinite (hx : Nearest q x) (hy : Nearest q y) (h : x.isFinite = true) :
    y.isFinite = true := by
  obtain ⟨b, hb, -⟩ := id hx
  obtain ⟨c, hc, -⟩ := id hy
  rw [(size_le_of_place? hb).2, ← b.abs_value, hx.value_eq hy hb hc] at h
  rwa [(size_le_of_place? hc).2, ← c.abs_value]

/-! ## Opposite numbers -/

theorem value_flip (b : Binary) :
    Binary.value ⟨!b.negative, b.mantissa, b.exponent⟩ = -b.value := by
  unfold Binary.value Binary.size
  cases b.negative <;> simp

/-- The nearest double of the opposite number is the opposite double. -/
theorem Nearest.neg (h : Nearest q x) : Nearest (-q) (-x) := by
  obtain ⟨b, hb, hall⟩ := h
  refine ⟨⟨!b.negative, b.mantissa, b.exponent⟩, by rw [place?_neg, hb]; rfl, ?_⟩
  intro y c hc
  have hdist : ∀ d : Binary, |d.value - -q| = |-d.value - q| := by
    intro d
    rw [← abs_neg]
    congr 1
    ring
  have hrival := hall (-y) ⟨!c.negative, c.mantissa, c.exponent⟩ (by rw [place?_neg, hc]; rfl)
  rw [value_flip] at hrival
  rw [hdist c, hdist, value_flip, neg_neg]
  exact ⟨hrival.1, fun htie => (hrival.2 htie).imp_left fun heq => by rw [← heq, neg_neg]⟩

/-! ## Multiples -/

/-- What is at most half a step away is nearer than any other number of steps. -/
theorem abs_sub_le_steps (hu : 0 < u) (hnear : |q - r * u| ≤ u / 2) (k : ℕ) :
    |q - r * u| ≤ |q - k * u| ∧
      (|q - k * u| = |q - r * u| → k = r ∨ |q - r * u| = u / 2 ∧ (k = r + 1 ∨ r = k + 1)) := by
  have hsteps : ∀ {m n : ℕ} {d : ℚ}, (m : ℚ) + d ≤ n → m * u + d * u ≤ n * u := by
    intro m n d h
    rw [← add_mul]
    exact mul_le_mul_of_nonneg_right h hu.le
  obtain ⟨hlow, hhigh⟩ := abs_le.mp hnear
  rcases Nat.lt_trichotomy k r with hlt | rfl | hgt
  · have hone := hsteps (m := k) (n := r) (d := 1) (by exact_mod_cast hlt)
    have hfar : u / 2 ≤ q - k * u := by linarith
    rw [abs_of_nonneg (a := q - k * u) (by linarith)]
    refine ⟨hnear.trans hfar, fun htie => .inr ⟨le_antisymm hnear (htie ▸ hfar), .inr ?_⟩⟩
    by_contra hne
    have htwo := hsteps (m := k) (n := r) (d := 2) (by exact_mod_cast (by omega : k + 2 ≤ r))
    linarith
  · exact ⟨le_refl _, fun _ => .inl rfl⟩
  · have hone := hsteps (m := r) (n := k) (d := 1) (by exact_mod_cast hgt)
    have hfar : u / 2 ≤ k * u - q := by linarith
    rw [abs_sub_comm q (k * u), abs_of_nonneg (a := k * u - q) (by linarith)]
    refine ⟨hnear.trans hfar, fun htie => .inr ⟨le_antisymm hnear (htie ▸ hfar), .inl ?_⟩⟩
    by_contra hne
    have htwo := hsteps (m := r) (n := k) (d := 2) (by exact_mod_cast (by omega : r + 2 ≤ k))
    linarith

/-- The number `q` is rounded to `r` steps of `2 ^ t`: they are nearest to it, in a tie they are
even in number, and the step is the least there is, unless `q` has `2 ^ 52` of them. -/
structure Rounded (q : ℚ) (r : ℕ) (t : ℤ) : Prop where
  near : |q - r * (2 : ℚ) ^ t| ≤ (2 : ℚ) ^ t / 2
  even : |q - r * (2 : ℚ) ^ t| = (2 : ℚ) ^ t / 2 → Even r
  fine : t = -1074 ∨ 2 ^ 52 * (2 : ℚ) ^ t ≤ q

theorem step_pos (t : ℤ) : (0 : ℚ) < 2 ^ t :=
  zpow_pos (by norm_num) t

/-- Parts with the exponent of the step or a larger one are a number of steps. -/
theorem size_eq_steps (h : t ≤ b.exponent) :
    b.size = (b.mantissa * 2 ^ (b.exponent - t).toNat : ℕ) * (2 : ℚ) ^ t := by
  have hsum : ((b.exponent - t).toNat : ℤ) + t = b.exponent := by omega
  unfold Binary.size
  rw [Nat.cast_mul, Nat.cast_pow, Nat.cast_ofNat, mul_assoc, ← zpow_natCast,
    ← zpow_add₀ (by norm_num), hsum]

/-- No double is nearer in size. One that is as near has an odd mantissa, unless it is the same. -/
theorem Rounded.abs_sub_size_le (h : Rounded q r t) (hc : Held c) :
    |q - r * (2 : ℚ) ^ t| ≤ |q - c.size| ∧
      (|q - c.size| = |q - r * (2 : ℚ) ^ t| →
        c.size = r * (2 : ℚ) ^ t ∨ Even r ∧ Odd c.mantissa) := by
  by_cases hexponent : t ≤ c.exponent
  · -- the rival is a number of steps
    rw [size_eq_steps hexponent]
    have hrival := abs_sub_le_steps (step_pos t) h.near (c.mantissa * 2 ^ (c.exponent - t).toNat)
    refine ⟨hrival.1, fun htie => ?_⟩
    rcases hrival.2 htie with heq | ⟨hhalf, hnext⟩
    · exact .inl (by rw [heq])
    · have heven := h.even hhalf
      have hodd : Odd (c.mantissa * 2 ^ (c.exponent - t).toNat) := by grind
      exact .inr ⟨heven, (Nat.odd_mul.mp hodd).1⟩
  · -- the rival has less than `2 ^ 52` steps, which `q` has
    have hfine : 2 ^ 52 * (2 : ℚ) ^ t ≤ q := by
      refine h.fine.resolve_left ?_
      have hleast := hc.least
      omega
    have hsize : c.size < 2 ^ 52 * (2 : ℚ) ^ t := by
      have hlt := hc.size_lt (k := t - 1) (by omega)
      rwa [Int.sub_add_cancel] at hlt
    have hfull := (abs_sub_le_steps (step_pos t) h.near (2 ^ 52)).1
    rw [Nat.cast_pow, Nat.cast_ofNat,
      abs_of_nonneg (a := q - 2 ^ 52 * 2 ^ t) (by linarith)] at hfull
    rw [abs_of_nonneg (a := q - c.size) (by linarith)]
    exact ⟨by linarith, fun htie => absurd htie (by linarith)⟩

theorem Rounded.steps_of_zero (h : Rounded 0 r t) : r * (2 : ℚ) ^ t = 0 := by
  have hstep := step_pos t
  have hnear := h.near
  rw [zero_sub, abs_neg, abs_of_nonneg (mul_nonneg (Nat.cast_nonneg r) hstep.le)] at hnear
  have hhalf : (r : ℚ) ≤ 1 / 2 := by
    by_contra hlt
    have hmul := mul_lt_mul_of_pos_right (not_le.mp hlt) hstep
    linarith
  have hr : r = 0 := by
    by_contra hne
    have hone : (1 : ℚ) ≤ r := by exact_mod_cast Nat.pos_of_ne_zero hne
    linarith
  rw [hr, Nat.cast_zero, zero_mul]

/-- The sign of a rival only takes it further away. -/
theorem abs_sub_size_le_value (hq : 0 ≤ q) (c : Binary) :
    |q - c.size| ≤ |c.value - q| ∧ (|c.value - q| = |q - c.size| → c.value = c.size ∨ q = 0) := by
  have hsize := c.size_nonneg
  unfold Binary.value
  split
  · have hfar : |-c.size - q| = q + c.size := by
      rw [abs_of_nonpos (by linarith)]
      ring
    rw [hfar]
    refine ⟨abs_le.mpr ⟨by linarith, by linarith⟩, fun htie => ?_⟩
    rcases abs_choice (q - c.size) with habs | habs
    · rw [habs] at htie
      exact .inl (by linarith)
    · rw [habs] at htie
      exact .inr (by linarith)
  · rw [abs_sub_comm]
    exact ⟨le_refl _, fun _ => .inl rfl⟩

/-- **Rounding finds the nearest double**: one that has the size of the steps is nearest to the
number. -/
theorem Rounded.nearest (h : Rounded q r t) (hq : 0 ≤ q) (hb : place? x = some b)
    (hsign : b.negative = false) (hsize : b.size = r * (2 : ℚ) ^ t)
    (heven : Even r → Even b.mantissa) : Nearest q x := by
  have hvalue : b.value = r * (2 : ℚ) ^ t := by
    rw [Binary.value, hsign, if_neg Bool.false_ne_true, hsize]
  refine ⟨b, hb, fun y c hc => ?_⟩
  obtain ⟨hsizes, htie⟩ := h.abs_sub_size_le (held_of_place? hc)
  obtain ⟨hsigned, hsame⟩ := abs_sub_size_le_value hq c
  rw [hvalue, abs_sub_comm _ q]
  refine ⟨hsizes.trans hsigned, fun heq => ?_⟩
  have hmiddle : |q - c.size| = |q - r * (2 : ℚ) ^ t| := le_antisymm (heq ▸ hsigned) hsizes
  rcases htie hmiddle with hsame' | hodd
  · rcases hsame (heq.trans hmiddle.symm) with hpositive | hzero
    · exact .inl (hpositive.trans hsame')
    · -- zero is rounded to no steps, and its rivals of either sign are one
      have hnone : r * (2 : ℚ) ^ t = 0 := by
        rw [hzero] at h
        exact h.steps_of_zero
      have hvalueZero : c.value = 0 := by
        rw [hnone] at hsame'
        unfold Binary.value
        rw [hsame', neg_zero, ite_self]
      exact .inl (hvalueZero.trans hnone.symm)
  · exact .inr ⟨heven hodd.1, hodd.2⟩

/-- A number beyond the doubles has an infinity as its nearest double. -/
theorem nearest_infinity (hq : limit ≤ q) (hx : place? x = some ⟨false, 2 ^ 52, 972⟩) :
    Nearest q x := by
  have hvalue : Binary.value ⟨false, 2 ^ 52, 972⟩ = limit := size_infinity false
  refine ⟨_, hx, fun y c hc => ?_⟩
  have hrival : c.value ≤ limit :=
    (le_abs_self _).trans (c.abs_value.trans_le (size_le_of_place? hc).1)
  rw [hvalue, abs_of_nonpos (by linarith), abs_of_nonpos (by linarith)]
  exact ⟨by linarith, fun htie => .inl (by linarith)⟩

end Double

end DocumentRules
