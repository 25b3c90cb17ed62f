import DocumentRules.Decimal.Numeral
import DocumentRules.Proofs.Decimal.Rounding

/-!
# A numeral is read as the nearest double

A decimal is a rational number (`Decimal.value`), and reading it gives the double nearest to that
number (`Decimal.nearest_toFloat`). There is nothing to assume: the conversion is a single
product or a single quotient, of numbers that are held exactly, and each of the two is rounded
once. A short decimal is converted with the powers of ten that are doubles, up to the
twenty-second; a long one in integers of any size, unless its exponent alone shows that it is
beyond the doubles or too close to zero.
-/

set_option autoImplicit false

namespace DocumentRules

namespace Double

open Float.Model (UnpackedFloat Format)
open Float.Model.UnpackedFloat

variable {m m₁ m₂ : ℕ} {e e₁ e₂ : ℤ} {q : ℚ} {x : Float}

/-! ## Products and quotients -/

/-- What is not half as large as the least double has zero as its nearest double. -/
theorem nearest_zero (hq : 0 ≤ q) (hsmall : q ≤ (2 : ℚ) ^ (-1074 : ℤ) / 2)
    (hx : place? x = some ⟨false, 0, -1074⟩) : Nearest q x := by
  have hrounded : Rounded q 0 (-1074) := by
    refine ⟨?_, fun _ => Even.zero, .inl rfl⟩
    rw [Nat.cast_zero, zero_mul, sub_zero, abs_of_nonneg hq]
    exact hsmall
  exact hrounded.nearest hq hx rfl (by simp [Binary.size]) id

theorem nearest_mul (h₁ : 0 < m₁) (h₂ : 0 < m₂) (hfits : 2 ^ 52 ≤ m₁ * m₂) :
    Nearest (m₁ * 2 ^ e₁ * (m₂ * 2 ^ e₂)) (.ofModel (.pack (UnpackedFloat.mul Format.binary64
      (.finite .positive m₁ e₁ h₁) (.finite .positive m₂ e₂ h₂)))) := by
  have hround := nearest_roundWithAccuracy (e := e₁ + e₂) (stands_exact (m₁ * m₂)) (.inl hfits)
  have hvalue : (m₁ * 2 ^ e₁ * (m₂ * 2 ^ e₂) : ℚ) = (m₁ * m₂ : ℕ) * 2 ^ (e₁ + e₂) := by
    rw [zpow_add₀ (by norm_num), Nat.cast_mul]
    ring
  rw [hvalue]
  exact hround

/-- The quotient of two mantissas is taken with at least 53 bits, or down to the least step. -/
theorem quotient_fits {k : ℕ} (h₁ : 0 < m₁) (h₂ : 0 < m₂) (hk : 53 + m₂.log2 ≤ m₁.log2 + k) :
    2 ^ 52 ≤ m₁ * 2 ^ k / m₂ := by
  rw [Nat.le_div_iff_mul_le h₂]
  calc 2 ^ 52 * m₂ ≤ 2 ^ 52 * 2 ^ (m₂.log2 + 1) := Nat.mul_le_mul_left _ Nat.lt_log2_self.le
    _ = 2 ^ (53 + m₂.log2) := by rw [← pow_add]; congr 1; omega
    _ ≤ 2 ^ (m₁.log2 + k) := Nat.pow_le_pow_right (by omega) hk
    _ = 2 ^ m₁.log2 * 2 ^ k := pow_add _ _ _
    _ ≤ m₁ * 2 ^ k := Nat.mul_le_mul_right _ (Nat.log2_self_le h₁.ne')

theorem nearest_div (h₁ : 0 < m₁) (h₂ : 0 < m₂) :
    Nearest (m₁ * 2 ^ e₁ / (m₂ * 2 ^ e₂)) (.ofModel (.pack (UnpackedFloat.div Format.binary64
      (.finite .positive m₁ e₁ h₁) (.finite .positive m₂ e₂ h₂)))) := by
  have htarget : Format.binary64.targetExponent
      (Float.Model.totalExponent m₁ e₁ - Float.Model.totalExponent m₂ e₂) =
      max ((m₁.log2 : ℤ) + 1 + e₁ - (m₂.log2 + 1 + e₂) - 53) (-1074) := rfl
  obtain ⟨t, ht⟩ : ∃ t, min (e₁ - e₂)
    (max ((m₁.log2 : ℤ) + 1 + e₁ - (m₂.log2 + 1 + e₂) - 53) (-1074)) = t := ⟨_, rfl⟩
  obtain ⟨k, hk⟩ : ∃ k : ℕ, e₁ - e₂ = t + k := ⟨(e₁ - e₂ - t).toNat, by omega⟩
  have hcore : divCore Format.binary64 m₁ e₁ m₂ e₂ =
      (m₁ * 2 ^ k / m₂, t, accuracyOfFraction (m₁ * 2 ^ k % m₂) m₂) := by
    have hshift : (e₁ - e₂ - t).toNat = k := by omega
    unfold divCore
    rw [htarget, ht]
    dsimp only
    rw [hshift, Nat.shiftLeft_eq]
  have hfits : 2 ^ 52 ≤ m₁ * 2 ^ k / m₂ ∨ t ≤ -1074 := by
    by_cases hleast : t ≤ -1074
    · exact .inr hleast
    · exact .inl (quotient_fits h₁ h₂ (by omega))
  have hround := nearest_roundWithAccuracy (e := t) (stands_quotient (m₁ * 2 ^ k) h₂) hfits
  have hvalue : (m₁ * 2 ^ e₁ / (m₂ * 2 ^ e₂) : ℚ) = ((m₁ * 2 ^ k : ℕ) : ℚ) / m₂ * 2 ^ t := by
    have hpow : (2 : ℚ) ^ e₁ = 2 ^ k * 2 ^ t * 2 ^ e₂ := by
      rw [← zpow_natCast, ← zpow_add₀ (by norm_num), ← zpow_add₀ (by norm_num)]
      congr 1
      omega
    have hne : (2 : ℚ) ^ e₂ ≠ 0 := (step_pos e₂).ne'
    rw [hpow, Nat.cast_mul, Nat.cast_pow, Nat.cast_ofNat]
    field_simp
  have hdiv : UnpackedFloat.div Format.binary64 (.finite .positive m₁ e₁ h₁)
      (.finite .positive m₂ e₂ h₂) = roundWithAccuracy Format.binary64 .positive
        (divCore Format.binary64 m₁ e₁ m₂ e₂).1 (divCore Format.binary64 m₁ e₁ m₂ e₂).2.1
        (divCore Format.binary64 m₁ e₁ m₂ e₂).2.2 := rfl
  rw [hvalue, hdiv, hcore]
  exact hround

/-! ## Powers of ten -/

theorem powerOfTen_parts : ∀ k : Fin 23,
    Binary.ofFloat? Float.exactlyRepresentablePowersOfTen[k.val] =
      some ⟨false, 5 ^ k.val * 2 ^ spare (5 ^ k.val), k.val - spare (5 ^ k.val)⟩ := by
  decide +kernel

/-- The first powers of ten are doubles. -/
theorem unpack_powerOfTen {k : ℕ} (hk : k < 23) : ∃ p e, ∃ hp : 0 < p, Full p ∧
    Float.exactlyRepresentablePowersOfTen[k].toModel.unpack = .finite .positive p e hp ∧
      (p * 2 ^ e : ℚ) = 10 ^ k := by
  have hfull : Full (5 ^ k * 2 ^ spare (5 ^ k)) := by
    refine full_shifted (Nat.pow_pos (by omega)) ?_
    exact (Nat.pow_le_pow_right (by omega) (Nat.le_of_lt_succ hk)).trans_lt (by norm_num)
  refine ⟨_, k - spare (5 ^ k), hfull.pos, hfull,
    unpack_of_parts (powerOfTen_parts ⟨k, hk⟩) hfull.pos, ?_⟩
  rw [zpow_sub₀ (by norm_num), zpow_natCast, zpow_natCast, Nat.cast_mul, Nat.cast_pow,
    Nat.cast_pow, Nat.cast_ofNat, Nat.cast_ofNat, show (10 : ℚ) = 5 * 2 by norm_num, mul_pow]
  field_simp

/-! ## Conversion -/

/-- A scientific numeral as a rational number. -/
def scientificValue (m : ℕ) (negative : Bool) (k : ℕ) : ℚ :=
  if negative then m / 10 ^ k else m * 10 ^ k

theorem nearest_pack_zero (hq : 0 ≤ q) (hsmall : q ≤ (2 : ℚ) ^ (-1074 : ℤ) / 2) :
    Nearest q (.ofModel (.pack (.zero .positive))) :=
  nearest_zero hq hsmall rfl

/-- A short decimal is converted in one step from two numbers that are doubles. -/
theorem nearest_short {k : ℕ} (hm : m < 2 ^ 53) (hk : k < 23) (negative : Bool) :
    Nearest (scientificValue m negative k)
      (if negative then m.toUInt64.toFloat / Float.exactlyRepresentablePowersOfTen[k]
        else m.toUInt64.toFloat * Float.exactlyRepresentablePowersOfTen[k]) := by
  obtain ⟨p, e, hp, hfull, hpower, hpow⟩ := unpack_powerOfTen hk
  generalize Float.exactlyRepresentablePowersOfTen[k] = power at hpower ⊢
  have hdiv : ∀ x y : Float, x / y =
      .ofModel (.pack (UnpackedFloat.div Format.binary64 x.toModel.unpack y.toModel.unpack)) :=
    fun _ _ => rfl
  have hmul : ∀ x y : Float, x * y =
      .ofModel (.pack (UnpackedFloat.mul Format.binary64 x.toModel.unpack y.toModel.unpack)) :=
    fun _ _ => rfl
  rw [hdiv, hmul, hpower]
  unfold scientificValue
  rcases Nat.eq_zero_or_pos m with rfl | hpos
  · have hzero : (0 : ℕ).toUInt64.toFloat.toModel.unpack = .zero .positive := rfl
    rw [hzero, Nat.cast_zero, zero_div, zero_mul, ite_self]
    have hnearest := nearest_pack_zero (le_refl 0) (div_nonneg (step_pos _).le (by norm_num))
    cases negative <;> exact hnearest
  · have hheld := unpack_toFloat hpos hm
    have hmantissa := full_shifted hpos hm
    have hvalue : (m : ℚ) = (m * 2 ^ spare m : ℕ) * 2 ^ (-spare m : ℤ) := by
      rw [zpow_neg, zpow_natCast, Nat.cast_mul, Nat.cast_pow, Nat.cast_ofNat]
      field_simp
    rw [hheld, ← hpow, hvalue]
    cases negative with
    | true => exact nearest_div hmantissa.pos hp
    | false =>
      exact nearest_mul hmantissa.pos hp (hmantissa.1.trans (Nat.le_mul_of_pos_right _ hp))

/-- A decimal with a large exponent is beyond the doubles. -/
theorem limit_le_scientific {k : ℕ} (hm : 0 < m) (hk : 2048 < k) : limit ≤ m * 10 ^ k := by
  have hone : (1 : ℚ) ≤ m := by exact_mod_cast hm
  have hpow : ∀ n : ℕ, (2 : ℚ) ^ n ≤ 10 ^ n := fun n =>
    pow_le_pow_left₀ (by norm_num) (by norm_num) n
  have hcast : (2 : ℚ) ^ (972 : ℤ) = 2 ^ (972 : ℕ) := zpow_natCast 2 972
  calc limit = 2 ^ (52 + 972) := by rw [limit, hcast, pow_add]
    _ ≤ 2 ^ k := pow_le_pow_right₀ (by norm_num) (by omega)
    _ ≤ 10 ^ k := hpow k
    _ = 1 * 10 ^ k := (one_mul _).symm
    _ ≤ m * 10 ^ k := mul_le_mul_of_nonneg_right hone (pow_nonneg (by norm_num) k)

/-- A decimal with an exponent that is very small is closer to zero than to any other double. -/
theorem scientific_le_least {k : ℕ} (hk : 2048 + m.log2 < k) :
    (m : ℚ) / 10 ^ k ≤ (2 : ℚ) ^ (-1074 : ℤ) / 2 := by
  have hm : (m : ℚ) ≤ 2 ^ (m.log2 + 1) := by exact_mod_cast Nat.lt_log2_self.le
  have hten : (2 : ℚ) ^ k ≤ 10 ^ k := pow_le_pow_left₀ (by norm_num) (by norm_num) k
  have htwo : (0 : ℚ) < 2 ^ k := pow_pos (by norm_num) k
  calc (m : ℚ) / 10 ^ k ≤ 2 ^ (m.log2 + 1) / 2 ^ k := div_le_div₀ (by positivity) hm htwo hten
    _ = (2 : ℚ) ^ (((m.log2 + 1 : ℕ) : ℤ) - (k : ℤ)) := by
      rw [zpow_sub₀ (by norm_num), zpow_natCast, zpow_natCast]
    _ ≤ (2 : ℚ) ^ (-1074 - 1 : ℤ) := zpow_le_zpow_right₀ (by norm_num) (by omega)
    _ = (2 : ℚ) ^ (-1074 : ℤ) / 2 := by rw [zpow_sub_one₀ (by norm_num), div_eq_mul_inv]

theorem exponent_range : (2 : ℤ) ^ Format.binary64.exponentBits = 2048 := by
  show (2 : ℤ) ^ 11 = 2048
  norm_num

/-- A decimal without a fraction is converted in one product of integers, if it is not too large. -/
theorem nearest_long_whole (hm : 0 < m) (k : ℕ) :
    Nearest (m * 10 ^ k) (.ofModel (.pack (UnpackedFloat.ofScientific Format.binary64 m k))) := by
  unfold UnpackedFloat.ofScientific
  rw [dif_neg hm.ne', exponent_range]
  by_cases hlarge : 2048 < k
  · rw [if_pos (by omega)]
    exact nearest_infinity (limit_le_scientific hm hlarge) (by rfl)
  · rw [if_neg (by omega), if_neg (by omega), if_pos (Int.natCast_nonneg k)]
    have hvalue : (m * 10 ^ k : ℚ) =
        (m <<< 53 : ℕ) * 2 ^ (-(53 : ℕ) : ℤ) * ((10 ^ (k : ℤ).toNat : ℕ) * 2 ^ (0 : ℤ)) := by
      rw [Int.toNat_natCast, Nat.shiftLeft_eq, zpow_neg, zpow_natCast, Nat.cast_mul, Nat.cast_pow,
        Nat.cast_pow, Nat.cast_ofNat, Nat.cast_ofNat, zpow_zero, mul_one]
      field_simp
    have hfits : 2 ^ 52 ≤ m <<< 53 * 10 ^ (k : ℤ).toNat := by
      rw [Nat.shiftLeft_eq]
      have hpow : 0 < 10 ^ (k : ℤ).toNat := Nat.pow_pos (by omega)
      calc 2 ^ 52 ≤ m * 2 ^ 53 := by omega
        _ ≤ m * 2 ^ 53 * 10 ^ (k : ℤ).toNat := Nat.le_mul_of_pos_right _ hpow
    rw [hvalue]
    exact nearest_mul _ _ hfits

/-- A decimal with a fraction is converted in one quotient of integers, if it is not too small. -/
theorem nearest_long_fraction (hm : 0 < m) {k : ℕ} (hk : 0 < k) :
    Nearest (m / 10 ^ k)
      (.ofModel (.pack (UnpackedFloat.ofScientific Format.binary64 m (-k)))) := by
  unfold UnpackedFloat.ofScientific
  rw [dif_neg hm.ne', exponent_range, if_neg (by omega)]
  by_cases hsmall : 2048 + m.log2 < k
  · rw [if_pos (by omega)]
    exact nearest_pack_zero (by positivity) (scientific_le_least hsmall)
  · rw [if_neg (by omega), if_neg (by omega)]
    have hvalue : (m / 10 ^ k : ℚ) =
        m * 2 ^ (0 : ℤ) / ((10 ^ (- -(k : ℤ)).toNat : ℕ) * 2 ^ (0 : ℤ)) := by
      rw [neg_neg, Int.toNat_natCast, zpow_zero, mul_one, mul_one, Nat.cast_pow, Nat.cast_ofNat]
    rw [hvalue]
    exact nearest_div _ _

/-- Any decimal is converted in integers. -/
theorem nearest_long (m : ℕ) (negative : Bool) (k : ℕ) :
    Nearest (scientificValue m negative k) (.ofModel (.pack (UnpackedFloat.ofScientific
      Format.binary64 m (if negative then Int.negOfNat k else Int.ofNat k)))) := by
  unfold scientificValue
  rcases Nat.eq_zero_or_pos m with rfl | hm
  · rw [Nat.cast_zero, zero_div, zero_mul, ite_self]
    exact nearest_pack_zero (le_refl 0) (div_nonneg (step_pos _).le (by norm_num))
  cases negative with
  | false => exact nearest_long_whole hm k
  | true =>
    rcases Nat.eq_zero_or_pos k with rfl | hk
    · have hwhole := nearest_long_whole hm 0
      rw [pow_zero, mul_one] at hwhole
      rw [if_pos rfl, pow_zero, div_one]
      exact hwhole
    · rw [if_pos rfl, if_pos rfl, Int.negOfNat_eq]
      exact nearest_long_fraction hm hk

/-- **A scientific numeral is converted to the nearest double.** -/
theorem nearest_ofScientific (m : ℕ) (negative : Bool) (k : ℕ) :
    Nearest (scientificValue m negative k) (Float.ofScientific m negative k) := by
  unfold Float.ofScientific
  split
  · next hshort => exact nearest_short hshort.1 (Nat.lt_succ_of_le hshort.2) negative
  · exact nearest_long m negative k

end Double

namespace Decimal

/-- The number that a decimal is. -/
def value (d : Decimal) : ℚ :=
  d.coefficient * (10 : ℚ) ^ d.exponent

/-- **A decimal is read as the nearest double.** -/
theorem nearest_toFloat (d : Decimal) : Double.Nearest d.value d.toFloat := by
  have hvalue : d.value =
      Double.scientificValue d.coefficient (decide (d.exponent < 0)) d.exponent.natAbs := by
    unfold value Double.scientificValue
    rcases d with ⟨m, e⟩
    cases e with
    | ofNat k => rfl
    | negSucc k =>
      rw [if_pos (decide_eq_true (Int.negSucc_lt_zero k))]
      show (m : ℚ) * 10 ^ Int.negSucc k = m / 10 ^ (k + 1)
      rw [zpow_negSucc, div_eq_mul_inv]
  rw [hvalue]
  exact Double.nearest_ofScientific _ _ _

end Decimal

namespace Numeral

/-- The number that a numeral is. -/
def number (n : Numeral) : ℚ :=
  if n.negative then -n.magnitude.value else n.magnitude.value

theorem nearest_toFloat (n : Numeral) : Double.Nearest n.number n.toFloat := by
  unfold number toFloat
  split
  · exact n.magnitude.nearest_toFloat.neg
  · exact n.magnitude.nearest_toFloat

end Numeral

end DocumentRules
