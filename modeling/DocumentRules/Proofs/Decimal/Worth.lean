import DocumentRules.Json.Number
import Mathlib.Data.Rat.Floor

/-!
# What a number is worth

A number of a document is a rational number: an integer is itself, and a double is what its parts
make. `Number.value` is that number, without a bound and without rounding. Laws on numbers that are
not about spelling can be stated with it, in terms that have nothing to do with doubles.

One of them is here. The whole part of a double is found on its parts, by a shift of the mantissa;
`Binary.whole_eq` says that this is the fraction cut off.
-/

set_option autoImplicit false

namespace DocumentRules

/-- A rational number with its fraction cut off, toward zero. -/
def wholePart (q : ℚ) : ℤ :=
  if q < 0 then ⌈q⌉ else ⌊q⌋

@[simp] theorem wholePart_intCast (n : ℤ) : wholePart n = n := by
  unfold wholePart
  split
  · exact Int.ceil_intCast n
  · exact Int.floor_intCast n

theorem wholePart_neg (q : ℚ) : wholePart (-q) = -wholePart q := by
  unfold wholePart
  rcases lt_trichotomy q 0 with hneg | rfl | hpos
  · rw [if_pos hneg, if_neg (by linarith), Int.floor_neg]
  · simp
  · rw [if_pos (by linarith), if_neg (by linarith), Int.ceil_neg]

namespace Binary

/-- The absolute value of the number that the parts stand for. -/
def size (b : Binary) : ℚ :=
  b.mantissa * (2 : ℚ) ^ b.exponent

/-- The number that the parts stand for. -/
def value (b : Binary) : ℚ :=
  if b.negative then -b.size else b.size

theorem size_nonneg (b : Binary) : 0 ≤ b.size :=
  mul_nonneg (Nat.cast_nonneg _) (zpow_nonneg (by norm_num) _)

theorem abs_value (b : Binary) : |b.value| = b.size := by
  unfold value
  split
  · rw [abs_neg, abs_of_nonneg b.size_nonneg]
  · exact abs_of_nonneg b.size_nonneg

theorem whole_eq (b : Binary) : (b.whole : ℤ) = wholePart b.size := by
  rw [wholePart, if_neg (not_lt.mpr b.size_nonneg)]
  unfold whole size
  split
  · next hexponent =>
    obtain ⟨k, hk⟩ := Int.eq_ofNat_of_zero_le hexponent
    have hnat : (b.mantissa : ℚ) * (2 : ℚ) ^ b.exponent = ((b.mantissa * 2 ^ k : ℕ) : ℚ) := by
      rw [hk, zpow_natCast]
      push_cast
      rfl
    rw [hnat, Int.floor_natCast, hk]
    rfl
  · next hexponent =>
    obtain ⟨k, hk⟩ := Int.eq_ofNat_of_zero_le (a := -b.exponent) (by omega)
    have hdiv : (b.mantissa : ℚ) * (2 : ℚ) ^ b.exponent = (b.mantissa : ℚ) / (2 ^ k : ℕ) := by
      have hneg : b.exponent = -(k : ℤ) := by omega
      rw [hneg, zpow_neg, zpow_natCast, ← div_eq_mul_inv]
      push_cast
      rfl
    rw [hdiv, Rat.floor_natCast_div_natCast, hk]
    rfl

end Binary

namespace Number

/-- The number of a document as a rational number. -/
def value : Number → ℚ
  | .int n => n
  | .double x _ => ((Binary.ofFloat? x).map Binary.value).getD 0

end Number

end DocumentRules
