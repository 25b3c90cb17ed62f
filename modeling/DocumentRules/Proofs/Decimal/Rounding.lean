import DocumentRules.Proofs.Decimal.Nearest

/-!
# Rounding a mantissa that is too long

A product or a quotient is rounded with two bits behind the mantissa: one that says whether half a
unit is left, and one that says whether anything is left below that. Together they place the exact
number well enough (`Double.Stands`): shifting the mantissa to the right keeps the place, and
rounding takes the nearest integer, in a tie the even one.

What is rounded in this way is packed into a double, and that is the double nearest to the
exact number (`Double.nearest_roundWithAccuracy`), whatever happens on the way: a mantissa that
is rounded up to `2 ^ 53` and shifted once more, a number so small that no leading bit is left,
or one beyond all doubles.
-/

set_option autoImplicit false

namespace DocumentRules

namespace Double

open Float.Model (UnpackedFloat Format)
open Float.Model.UnpackedFloat

/-! ## The bits behind a mantissa -/

/-- A mantissa in halves, the bit behind it included. -/
def halves (em : ExtendedMantissa) : ℕ :=
  2 * em.mantissa + em.roundBit.toNat

/-- The number is so many halves, and a little more if the last bit is set. -/
def Stands (em : ExtendedMantissa) (y : ℚ) : Prop :=
  if em.stickyBit then (halves em : ℚ) < 2 * y ∧ 2 * y < halves em + 1 else 2 * y = halves em

variable {em : ExtendedMantissa} {y : ℚ} {m k : ℕ} {e : ℤ} {accuracy : Accuracy}

theorem halves_shiftRightOne (em : ExtendedMantissa) : halves em.shiftRightOne = em.mantissa := by
  have hbit : (em.mantissa % 2 != 0).toNat = em.mantissa % 2 := by
    rcases Nat.mod_two_eq_zero_or_one em.mantissa with h | h <;> rw [h] <;> rfl
  show 2 * (em.mantissa / 2) + (em.mantissa % 2 != 0).toNat = em.mantissa
  rw [hbit]
  omega

theorem Stands.shiftRightOne (h : Stands em y) : Stands em.shiftRightOne (y / 2) := by
  have hhalf : 2 * (y / 2) = y := by ring
  unfold Stands at *
  rw [halves_shiftRightOne, hhalf]
  rcases em with ⟨m, roundBit, stickyBit⟩
  cases roundBit <;> cases stickyBit <;>
    simp [halves, ExtendedMantissa.shiftRightOne] at h ⊢ <;> grind

theorem Stands.shiftRight (h : Stands em y) (k : ℕ) : Stands (em >>> k) (y / 2 ^ k) := by
  induction k with
  | zero =>
    rw [pow_zero, div_one]
    exact h
  | succ k ih =>
    rw [pow_succ, ← div_div]
    exact ih.shiftRightOne

/-- The mantissa that is rounded to is the nearest integer, in a tie the even one. -/
theorem Stands.near (h : Stands em y) :
    |y - em.roundedMantissa| ≤ 1 / 2 ∧
      (|y - em.roundedMantissa| = 1 / 2 → Even em.roundedMantissa) := by
  rcases em with ⟨m, roundBit, stickyBit⟩
  cases roundBit <;> cases stickyBit <;>
    simp only [Stands, halves, Bool.false_eq_true, if_false, if_true, Bool.toNat_false,
      Bool.toNat_true, add_zero, Nat.cast_add, Nat.cast_mul, Nat.cast_ofNat, Nat.cast_one] at h
  · -- nothing is left
    have hr : (ExtendedMantissa.mk m false false).roundedMantissa = m := rfl
    have hy : y - m = 0 := by linarith
    rw [hr, hy, abs_zero]
    exact ⟨by norm_num, fun htie => absurd htie (by norm_num)⟩
  · -- less than a half is left
    have hr : (ExtendedMantissa.mk m false true).roundedMantissa = m := rfl
    rw [hr, abs_of_pos (by linarith)]
    exact ⟨by linarith, fun htie => absurd htie (by linarith)⟩
  · -- a half is left
    have hr : (ExtendedMantissa.mk m true false).roundedMantissa = m + m % 2 := rfl
    rw [hr]
    refine ⟨?_, fun _ => by grind⟩
    rcases Nat.mod_two_eq_zero_or_one m with hm | hm
    · rw [hm, Nat.cast_add, Nat.cast_zero, abs_of_pos (by linarith)]
      linarith
    · rw [hm, Nat.cast_add, Nat.cast_one, abs_of_neg (by linarith)]
      linarith
  · -- more than a half is left
    have hr : (ExtendedMantissa.mk m true true).roundedMantissa = m + 1 := rfl
    rw [hr, Nat.cast_add, Nat.cast_one, abs_of_neg (by linarith)]
    exact ⟨by linarith, fun htie => absurd htie (by linarith)⟩

theorem stands_exact (m : ℕ) : Stands (.ofMantissaAndAccuracy m .exact) m := by
  simp [Stands, halves, ExtendedMantissa.ofMantissaAndAccuracy]

/-- A quotient stands where its remainder says. -/
theorem stands_quotient (a : ℕ) {d : ℕ} (hd : 0 < d) :
    Stands (.ofMantissaAndAccuracy (a / d) (accuracyOfFraction (a % d) d)) (a / d : ℚ) := by
  have hdpos : (0 : ℚ) < d := by exact_mod_cast hd
  have hsum : (a : ℚ) = d * (a / d : ℕ) + (a % d : ℕ) := by
    exact_mod_cast (Nat.div_add_mod a d).symm
  have hlt : ((a % d : ℕ) : ℚ) < d := by exact_mod_cast Nat.mod_lt a hd
  have hquotient : (a / d : ℚ) = (a / d : ℕ) + (a % d : ℕ) / d := by
    rw [div_eq_iff hdpos.ne', add_mul, div_mul_cancel₀ _ hdpos.ne']
    linarith
  rw [hquotient]
  generalize a / d = m at *
  generalize a % d = rest at *
  unfold accuracyOfFraction
  split
  · next hrest =>
    rw [hrest, Nat.cast_zero, zero_div, add_zero]
    exact stands_exact m
  · next hrest =>
    have hrestpos : (0 : ℚ) < rest / d := div_pos (by exact_mod_cast Nat.pos_of_ne_zero hrest) hdpos
    have hone : (rest : ℚ) / d < 1 := (div_lt_one hdpos).mpr hlt
    have htwice : 2 * ((rest : ℚ) / d) = (2 * rest : ℕ) / d := by
      rw [Nat.cast_mul, Nat.cast_ofNat, mul_div_assoc]
    cases hcompare : compare (2 * rest) d with
    | lt =>
      have hhalf : ((2 * rest : ℕ) : ℚ) / d < 1 :=
        (div_lt_one hdpos).mpr (by exact_mod_cast compare_lt_iff_lt.mp hcompare)
      simp [Stands, halves, ExtendedMantissa.ofMantissaAndAccuracy]
      constructor <;> linarith
    | eq =>
      have hhalf : ((2 * rest : ℕ) : ℚ) / d = 1 :=
        (div_eq_one_iff_eq hdpos.ne').mpr (by exact_mod_cast compare_eq_iff_eq.mp hcompare)
      simp [Stands, halves, ExtendedMantissa.ofMantissaAndAccuracy]
      linarith
    | gt =>
      have hhalf : 1 < ((2 * rest : ℕ) : ℚ) / d :=
        (one_lt_div hdpos).mpr (by exact_mod_cast compare_gt_iff_gt.mp hcompare)
      simp [Stands, halves, ExtendedMantissa.ofMantissaAndAccuracy]
      constructor <;> linarith

/-! ## The step -/

theorem Stands.bounds (h : Stands em y) : (em.mantissa : ℚ) ≤ y ∧ y < em.mantissa + 1 := by
  rcases em with ⟨m, roundBit, stickyBit⟩
  cases roundBit <;> cases stickyBit <;> simp [Stands, halves] at h ⊢ <;> grind

theorem targetExponent_eq (m : ℕ) (e : ℤ) :
    Format.binary64.targetExponent (Float.Model.totalExponent m e) =
      max ((m.log2 : ℤ) + e - 52) (-1074) := by
  show max ((m.log2 : ℤ) + 1 + e - (53 : ℤ)) (-1074) = _
  congr 1
  omega

/-- A mantissa is shifted to come to the step: so far that it has at most 53 bits, and all of them
unless the step is the least one. -/
theorem exists_shiftToTargetExponent (accuracy : Accuracy) (hfits : 2 ^ 52 ≤ m ∨ e ≤ -1074) :
    ∃ k : ℕ, shiftToTargetExponent Format.binary64 m e accuracy =
        (ExtendedMantissa.ofMantissaAndAccuracy m accuracy >>> k, e + k) ∧
      m.log2 ≤ 52 + k ∧ -1074 ≤ e + k ∧ (e + k = -1074 ∨ m.log2 = 52 + k) := by
  have hlog : 52 ≤ m.log2 ∨ e ≤ -1074 := by
    refine hfits.imp_left fun hm => ?_
    have hne : m ≠ 0 := by
      intro hzero
      rw [hzero] at hm
      omega
    exact (Nat.le_log2 hne).mpr hm
  refine ⟨(max ((m.log2 : ℤ) + e - 52) (-1074) - e).toNat, ?_, ?_, ?_, ?_⟩
  · unfold shiftToTargetExponent shiftToExponent
    rw [targetExponent_eq]
  · omega
  · omega
  · omega

/-- What is nearest in a number of steps is rounded. -/
theorem Rounded.of_steps {z : ℚ} {r : ℕ} {t : ℤ} (hnear : |z - r| ≤ 1 / 2)
    (heven : |z - r| = 1 / 2 → Even r) (hfine : t = -1074 ∨ 2 ^ 52 ≤ z) :
    Rounded (z * 2 ^ t) r t := by
  have hstep := step_pos t
  have hdist : |z * (2 : ℚ) ^ t - r * (2 : ℚ) ^ t| = |z - r| * (2 : ℚ) ^ t := by
    rw [← sub_mul, abs_mul, abs_of_pos hstep]
  refine ⟨?_, fun htie => ?_, ?_⟩
  · rw [hdist]
    linarith [mul_le_mul_of_nonneg_right hnear hstep.le]
  · rw [hdist] at htie
    apply heven
    apply mul_right_cancel₀ hstep.ne'
    linarith
  · exact hfine.imp_right fun hle => mul_le_mul_of_nonneg_right hle hstep.le

/-- Shifting to the step rounds to it, and what is rounded has less than `2 ^ 53` steps. -/
theorem Stands.rounded {first : ExtendedMantissa × ℤ}
    (h : Stands (.ofMantissaAndAccuracy m accuracy) y) (hfits : 2 ^ 52 ≤ m ∨ e ≤ -1074)
    (hfirst : shiftToTargetExponent Format.binary64 m e accuracy = first) :
    Rounded (y * 2 ^ e) first.1.roundedMantissa first.2 ∧ -1074 ≤ first.2 ∧
      y * 2 ^ e < 2 ^ 53 * (2 : ℚ) ^ first.2 := by
  have hmantissa : (ExtendedMantissa.ofMantissaAndAccuracy m accuracy).mantissa = m := by
    rcases accuracy with _ | _ | _ | _ <;> rfl
  obtain ⟨hlow, hhigh⟩ := h.bounds
  rw [hmantissa] at hlow hhigh
  obtain ⟨k, hshift, hbits, hleast, hfull⟩ := exists_shiftToTargetExponent accuracy hfits
  obtain rfl := hshift.symm.trans hfirst
  dsimp only
  -- from here on everything is counted in steps
  have hpow : (0 : ℚ) < 2 ^ k := pow_pos (by norm_num) k
  have hq : y * 2 ^ e = y / 2 ^ k * (2 : ℚ) ^ (e + k) := by
    rw [zpow_add₀ (by norm_num), zpow_natCast]
    field_simp
  obtain ⟨hnear, heven⟩ := (h.shiftRight k).near
  rw [hq]
  refine ⟨Rounded.of_steps hnear heven (hfull.imp_right fun hlog => ?_), hleast, ?_⟩
  · rw [le_div_iff₀ hpow]
    have hne : m ≠ 0 := by
      intro hzero
      rw [hzero, Nat.log2_zero] at hlog
      omega
    have hself := Nat.log2_self_le hne
    rw [hlog, pow_add] at hself
    have hselfRat : (2 : ℚ) ^ 52 * 2 ^ k ≤ m := by exact_mod_cast hself
    linarith
  · apply mul_lt_mul_of_pos_right _ (step_pos (e + k))
    rw [div_lt_iff₀ hpow]
    have hnext : m + 1 ≤ 2 ^ 53 * 2 ^ k := by
      rw [← pow_add]
      exact Nat.lt_log2_self.trans_le (Nat.pow_le_pow_right (by omega) (by omega))
    have hnextRat : (m : ℚ) + 1 ≤ 2 ^ 53 * 2 ^ k := by exact_mod_cast hnext
    linarith

/-! ## Packing what is rounded -/

variable {q : ℚ} {r : ℕ} {t : ℤ}

/-- What is rounded has at most `2 ^ 53` steps, and no less than `2 ^ 52`
unless they are the least. -/
theorem Rounded.steps (h : Rounded q r t) (hq : q < 2 ^ 53 * (2 : ℚ) ^ t) :
    r ≤ 2 ^ 53 ∧ (t = -1074 ∨ 2 ^ 52 ≤ r) := by
  have hstep := step_pos t
  obtain ⟨hlow, hhigh⟩ := abs_le.mp h.near
  constructor
  · by_contra hlt
    have hmore : ((2 : ℚ) ^ 53 + 1) * 2 ^ t ≤ r * 2 ^ t :=
      mul_le_mul_of_nonneg_right (by exact_mod_cast Nat.lt_of_not_le hlt) hstep.le
    linarith
  · refine h.fine.imp_right fun hfine => ?_
    by_contra hlt
    have hless : ((r : ℚ) + 1) * 2 ^ t ≤ 2 ^ 52 * 2 ^ t :=
      mul_le_mul_of_nonneg_right (by exact_mod_cast Nat.lt_of_not_le hlt) hstep.le
    linarith

/-- A mantissa of at most 53 bits is not shifted again. -/
theorem shiftToTargetExponent_small (hr : r < 2 ^ 53) (ht : -1074 ≤ t) :
    shiftToTargetExponent Format.binary64 r t .exact = (ExtendedMantissa.mk r false false, t) := by
  have hlog : r.log2 ≤ 52 := by
    rcases Nat.eq_zero_or_pos r with rfl | hpos
    · simp
    · have hlt := (Nat.log2_lt hpos.ne').mpr hr
      omega
  have hamount : (max ((r.log2 : ℤ) + t - 52) (-1074) - t).toNat = 0 := by omega
  unfold shiftToTargetExponent shiftToExponent
  rw [targetExponent_eq]
  dsimp only
  rw [hamount, Nat.cast_zero, add_zero]
  rfl

/-- The place of parts that are packed. -/
theorem place?_pack (h : Held ⟨false, m, e⟩) (hpos : 0 < m) :
    place? (.ofModel (.pack (.finite .positive m e hpos))) =
      some (if e ≤ 971 then ⟨false, m, e⟩ else ⟨false, 2 ^ 52, 972⟩) := by
  by_cases he : e ≤ 971
  · rw [place?, unpack_ofModel_pack, unpack_pack_of_held h hpos he, if_pos he]
    rfl
  · rw [place?, unpack_ofModel_pack, unpack_pack_beyond hpos (Int.lt_of_not_ge he), if_neg he]
    rfl

/-- A step that is too large for a double is one of a number beyond all doubles. -/
theorem Rounded.limit_le (h : Rounded q r t) (ht : 971 < t) : limit ≤ q := by
  have hfine := h.fine.resolve_left (by omega)
  have hpow : (2 : ℚ) ^ (972 : ℤ) ≤ 2 ^ t := zpow_le_zpow_right₀ (by norm_num) ht
  exact (mul_le_mul_of_nonneg_left hpow (by norm_num)).trans hfine

/-- A number of steps that fits a mantissa, packed. -/
theorem Rounded.nearest_pack (h : Rounded q r t) (hq : 0 ≤ q) (hheld : Held ⟨false, r, t⟩)
    (hpos : 0 < r) : Nearest q (.ofModel (.pack (.finite .positive r t hpos))) := by
  have hplace := place?_pack hheld hpos
  by_cases ht : t ≤ 971
  · rw [if_pos ht] at hplace
    exact h.nearest hq hplace rfl rfl id
  · rw [if_neg ht] at hplace
    exact nearest_infinity (h.limit_le (Int.lt_of_not_ge ht)) hplace

/-- One step more than fits a mantissa, shifted and packed. -/
theorem Rounded.nearest_pack_carry (h : Rounded q (2 ^ 53) t) (hq : 0 ≤ q) (ht : -1074 ≤ t) :
    Nearest q (.ofModel (.pack (.finite .positive (2 ^ 52) (t + 1) (Nat.two_pow_pos 52)))) := by
  have hheld : Held ⟨false, 2 ^ 52, t + 1⟩ :=
    ⟨Nat.pow_lt_pow_right (by omega) (by omega), by dsimp only; omega, .inr (Nat.le_refl _)⟩
  have hplace := place?_pack hheld (Nat.two_pow_pos 52)
  have hsize : Binary.size ⟨false, 2 ^ 52, t + 1⟩ = (2 ^ 53 : ℕ) * (2 : ℚ) ^ t := by
    rw [Binary.size, Nat.cast_pow, Nat.cast_pow, Nat.cast_ofNat, zpow_add_one₀ (by norm_num)]
    ring
  have heven : Even (2 ^ 53) → Even (2 ^ 52) := fun _ => Nat.even_pow.mpr ⟨even_two, by omega⟩
  by_cases hexponent : t + 1 ≤ 971
  · rw [if_pos hexponent] at hplace
    exact h.nearest hq hplace rfl hsize heven
  · rw [if_neg hexponent] at hplace
    rcases Int.lt_or_eq_of_le (Int.lt_of_not_ge hexponent) with hlt | heq
    · exact nearest_infinity (h.limit_le (by omega)) hplace
    · -- exactly the place of the infinities
      rw [← heq] at hsize
      exact h.nearest hq hplace rfl hsize heven

/-- **A mantissa with its bits is rounded to the nearest double** of the
number that they stand for. -/
theorem nearest_roundWithAccuracy (h : Stands (.ofMantissaAndAccuracy m accuracy) y)
    (hfits : 2 ^ 52 ≤ m ∨ e ≤ -1074) :
    Nearest (y * 2 ^ e)
      (.ofModel (.pack (roundWithAccuracy Format.binary64 .positive m e accuracy))) := by
  obtain ⟨first, hfirst⟩ : ∃ first, shiftToTargetExponent Format.binary64 m e accuracy = first :=
    ⟨_, rfl⟩
  obtain ⟨hrounded, hleast, hlt⟩ := h.rounded hfits hfirst
  have hq : 0 ≤ y * (2 : ℚ) ^ e := by
    refine mul_nonneg ?_ (step_pos e).le
    exact (Nat.cast_nonneg _).trans h.bounds.1
  obtain ⟨em, t⟩ := first
  dsimp only at hrounded hleast hlt
  obtain ⟨hle, hfull⟩ := hrounded.steps hlt
  unfold roundWithAccuracy
  rw [hfirst]
  dsimp only
  generalize em.roundedMantissa = r at *
  rcases Nat.lt_or_eq_of_le hle with hsmall | rfl
  · rw [shiftToTargetExponent_small hsmall hleast]
    dsimp only
    by_cases hzero : r = 0
    · rw [dif_pos hzero]
      subst hzero
      have hplace : place? (.ofModel (.pack (.zero .positive))) = some ⟨false, 0, -1074⟩ := rfl
      exact hrounded.nearest hq hplace rfl (by simp [Binary.size]) id
    · rw [dif_neg hzero]
      exact hrounded.nearest_pack hq ⟨hsmall, hleast, hfull⟩ (Nat.pos_of_ne_zero hzero)
  · have hfullTop : Full (2 ^ 52) := ⟨Nat.le_refl _, Nat.pow_lt_pow_right (by omega) (by omega)⟩
    have hcarry := hfullTop.shiftToTargetExponent (e := t + 1) (by omega) 1
    rw [← pow_add, Nat.cast_one, Int.add_sub_cancel] at hcarry
    rw [hcarry]
    dsimp only
    exact hrounded.nearest_pack_carry hq hleast

end Double

end DocumentRules
