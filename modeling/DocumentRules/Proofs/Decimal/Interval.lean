import DocumentRules.Proofs.Decimal.Digits
import DocumentRules.Proofs.Decimal.Reading

/-!
# The rounding interval

The shortest decimal of a double is looked for among the numbers that read back as the
double, and these are an interval (`Decimal.Within`). The search does what it says: what it
finds is in the interval (`Decimal.within_shortest`), the decimal with all digits included,
which is the value itself.

That the interval deserves its name is the other half: a number in it has the double as its nearest
one (`Within.nearest`). In quarters of the last place, the interval reaches two of them up and two
down, but only one down where the lower neighbour is half as far away as the upper one. There, a
number below the double is rounded in steps half as large, and to `2 ^ 53` of them.
-/

set_option autoImplicit false

namespace DocumentRules

/-! ## In the interval -/

namespace Decimal

/-- The number is in the rounding interval of `m * 2 ^ e`, which has its ends
only if `m` is even. -/
structure Within (m : ℕ) (e : ℤ) (q : ℚ) : Prop where
  low : lowerEnd m e * (2 : ℚ) ^ (e - 2) ≤ q
  high : q ≤ (4 * m + 2 : ℕ) * (2 : ℚ) ^ (e - 2)
  open_odd : m % 2 = 1 →
    lowerEnd m e * (2 : ℚ) ^ (e - 2) < q ∧ q < (4 * m + 2 : ℕ) * (2 : ℚ) ^ (e - 2)

variable {tie : Tie} {m point steps : ℕ} {e k : ℤ} {q : ℚ}

theorem four_quarters (e : ℤ) : (2 : ℚ) ^ e = 4 * 2 ^ (e - 2) := by
  rw [zpow_sub₀ (by norm_num)]
  norm_num
  ring

theorem lowerEnd_lt (hpos : 0 < m) (e : ℤ) : lowerEnd m e < 4 * m := by
  unfold lowerEnd
  split <;> omega

/-- The value is in its own interval. -/
theorem within_value (hpos : 0 < m) (hq : q = m * (2 : ℚ) ^ e) : Within m e q := by
  have hstep : (0 : ℚ) < 2 ^ (e - 2) := Double.step_pos _
  have hvalue : q = (4 * m : ℕ) * (2 : ℚ) ^ (e - 2) := by
    rw [hq, four_quarters, Nat.cast_mul, Nat.cast_ofNat]
    ring
  have hlow : lowerEnd m e * (2 : ℚ) ^ (e - 2) < q := by
    rw [hvalue]
    exact mul_lt_mul_of_pos_right (Nat.cast_lt.mpr (lowerEnd_lt hpos e)) hstep
  have hhigh : q < (4 * m + 2 : ℕ) * (2 : ℚ) ^ (e - 2) := by
    rw [hvalue]
    exact mul_lt_mul_of_pos_right (Nat.cast_lt.mpr (by omega)) hstep
  exact ⟨hlow.le, hhigh.le, fun _ => ⟨hlow, hhigh⟩⟩

/-- The candidate on a grid is compared with the ends of the interval in natural numbers, both moved
up by what is missing in the exponents. -/
theorem grid_le_iff (e k : ℤ) (n point : ℕ) :
    (n * (Nat.pow 2 (e - 2).toNat * Nat.pow 10 (-k).toNat) ≤
        point * (Nat.pow 2 (2 - e).toNat * Nat.pow 10 k.toNat) ↔
      (n : ℚ) * 2 ^ (e - 2) ≤ point * (10 : ℚ) ^ k) ∧
    (point * (Nat.pow 2 (2 - e).toNat * Nat.pow 10 k.toNat) ≤
        n * (Nat.pow 2 (e - 2).toNat * Nat.pow 10 (-k).toNat) ↔
      point * (10 : ℚ) ^ k ≤ (n : ℚ) * 2 ^ (e - 2)) := by
  -- the same positive factor on both sides
  have htwo : (2 : ℚ) ^ (e - 2).toNat = 2 ^ (e - 2) * 2 ^ (2 - e).toNat := by
    rw [← zpow_natCast, ← zpow_natCast, ← zpow_add₀ (by norm_num)]
    congr 1
    omega
  have hten : (10 : ℚ) ^ k.toNat = 10 ^ k * 10 ^ (-k).toNat := by
    rw [← zpow_natCast, ← zpow_natCast, ← zpow_add₀ (by norm_num)]
    congr 1
    omega
  have hfactor : (0 : ℚ) < 2 ^ (2 - e).toNat * 10 ^ (-k).toNat := by positivity
  have hleft : ((n * (2 ^ (e - 2).toNat * 10 ^ (-k).toNat) : ℕ) : ℚ) =
      n * 2 ^ (e - 2) * (2 ^ (2 - e).toNat * 10 ^ (-k).toNat) := by
    push_cast
    rw [htwo]
    ring
  have hright : ((point * (2 ^ (2 - e).toNat * 10 ^ k.toNat) : ℕ) : ℚ) =
      point * 10 ^ k * (2 ^ (2 - e).toNat * 10 ^ (-k).toNat) := by
    push_cast
    rw [hten]
    ring
  simp only [Nat.pow_eq]
  constructor
  · rw [← Nat.cast_le (α := ℚ), hleft, hright]
    exact mul_le_mul_iff_left₀ hfactor
  · rw [← Nat.cast_le (α := ℚ), hleft, hright]
    exact mul_le_mul_iff_left₀ hfactor

/-- A candidate is in the interval. -/
theorem within_candidate (h : candidate tie m e k = some point) :
    Within m e (point * (10 : ℚ) ^ k) := by
  obtain ⟨⟨hlow, hhigh⟩, hodd⟩ := candidate_inside h
  obtain ⟨hlowIff, hlowIff'⟩ := grid_le_iff e k (lowerEnd m e) point
  obtain ⟨hhighIff, hhighIff'⟩ := grid_le_iff e k (4 * m + 2) point
  refine ⟨hlowIff.mp hlow, hhighIff'.mp hhigh, fun hm => ?_⟩
  obtain ⟨hlt, hlt'⟩ := hodd hm
  constructor
  · exact not_le.mp fun hle => Nat.not_le.mpr hlt (hlowIff'.mpr hle)
  · exact not_le.mp fun hle => Nat.not_le.mpr hlt' (hhighIff.mpr hle)

/-- The decimal with every digit is the value. -/
theorem value_exact (m : ℕ) (e : ℤ) : (exact m e).value = m * (2 : ℚ) ^ e := by
  unfold exact value
  split
  · next he =>
    obtain ⟨n, rfl⟩ := Int.eq_ofNat_of_zero_le he
    simp
  · next he =>
    obtain ⟨n, hn⟩ := Int.eq_ofNat_of_zero_le (a := -e) (by omega)
    obtain rfl : e = -(n : ℤ) := by omega
    rw [neg_neg, Int.toNat_natCast, Nat.pow_eq, Nat.cast_mul, Nat.cast_pow, Nat.cast_ofNat,
      zpow_neg, zpow_neg, zpow_natCast, zpow_natCast, show (10 : ℚ) = 2 * 5 by norm_num, mul_pow]
    field_simp

theorem within_search (hpos : 0 < m) : Within m e (search tie m e steps).value := by
  induction steps with
  | zero => exact within_value hpos (value_exact m e)
  | succ steps ih =>
    unfold search
    dsimp only
    split
    · next point hpoint => exact within_candidate hpoint
    · exact ih

/-- **The shortest decimal of a double is in its rounding interval.** -/
theorem within_shortest (hpos : 0 < m) : Within m e (shortest tie m e).value := by
  unfold shortest
  rw [if_neg hpos.ne']
  exact within_search hpos

/-! ## Rounding what is in the interval -/

theorem Within.nonneg (h : Within m e q) : 0 ≤ q :=
  le_trans (mul_nonneg (Nat.cast_nonneg _) (Double.step_pos _).le) h.low

/-- Where the interval reaches as far down as up, its numbers are rounded to the mantissa. -/
theorem Within.rounded (h : Within m e q)
    (hfine : e = -1074 ∨ 2 ^ 52 * (2 : ℚ) ^ e ≤ q) : Double.Rounded q m e := by
  have hends : (4 * m - 2 : ℚ) * 2 ^ (e - 2) ≤ lowerEnd m e * (2 : ℚ) ^ (e - 2) := by
    apply mul_le_mul_of_nonneg_right _ (Double.step_pos _).le
    have hle : 4 * m ≤ lowerEnd m e + 2 := by
      have hend := le_lowerEnd m e
      omega
    have hleRat : (4 * m : ℚ) ≤ lowerEnd m e + 2 := by exact_mod_cast hle
    linarith
  have hhigh := h.high
  have hlow := h.low
  have hodd := h.open_odd
  rw [Nat.cast_add, Nat.cast_mul, Nat.cast_ofNat, Nat.cast_ofNat] at hhigh hodd
  refine ⟨?_, fun htie => ?_, hfine⟩
  · rw [four_quarters e, abs_le]
    constructor <;> linarith
  · rcases Nat.even_or_odd m with heven | hodd'
    · exact heven
    · obtain ⟨hlt, hlt'⟩ := hodd (Nat.odd_iff.mp hodd')
      exfalso
      refine htie.not_lt ?_
      rw [four_quarters e, abs_lt]
      constructor <;> linarith

/-- Below the first double with its exponent, the numbers of its interval are rounded to twice its
mantissa, in steps half as large. -/
theorem Within.rounded_half (h : Within binadeStart e q) (he : leastExponent < e)
    (hq : q ≤ 2 ^ 52 * (2 : ℚ) ^ e) : Double.Rounded q (2 ^ 53) (e - 1) := by
  have hlow := h.low
  have hend : lowerEnd binadeStart e = 2 ^ 54 - 1 := by
    unfold lowerEnd
    rw [if_pos ⟨rfl, he⟩]
    rfl
  have hstep := Double.step_pos (e - 2)
  have hhalf : (2 : ℚ) ^ (e - 1) = 2 * 2 ^ (e - 2) := by
    rw [show e - 1 = (e - 2) + 1 by omega, zpow_add_one₀ (by norm_num), mul_comm]
  have hlower : ((2 : ℚ) ^ 54 - 1) * 2 ^ (e - 2) ≤ q := by
    rw [hend, Nat.cast_sub (Nat.one_le_two_pow)] at hlow
    exact_mod_cast hlow
  rw [four_quarters] at hq
  refine ⟨?_, fun _ => ?_, .inr ?_⟩
  · rw [hhalf, Nat.cast_pow, Nat.cast_ofNat, abs_le]
    constructor <;> linarith
  · exact Nat.even_pow.mpr ⟨even_two, by omega⟩
  · rw [hhalf]
    linarith

variable {x : Float} {b : Binary}

/-- **A number in the interval of a positive double has it as its nearest double.** -/
theorem Within.nearest_positive (h : Within b.mantissa b.exponent q) (hb : Double.place? x = some b)
    (hsign : b.negative = false) : Double.Nearest q x := by
  have hheld := Double.held_of_place? hb
  have hleast : leastExponent = -1074 := rfl
  have hstart : binadeStart = 2 ^ 52 := rfl
  by_cases hfine : b.exponent = -1074 ∨ 2 ^ 52 * (2 : ℚ) ^ b.exponent ≤ q
  · exact (h.rounded hfine).nearest h.nonneg hb hsign rfl id
  · obtain ⟨hexponent, hlt⟩ := not_or.mp hfine
    have hfull := hheld.full.resolve_left hexponent
    have hmore := hheld.least
    have hfirst : b.mantissa = binadeStart := by
      by_contra hne
      -- any other mantissa is at least half a place above the first one
      have hend : 2 ^ 54 ≤ lowerEnd b.mantissa b.exponent := by
        have hle := le_lowerEnd b.mantissa b.exponent
        omega
      have hendRat : (2 : ℚ) ^ 54 ≤ lowerEnd b.mantissa b.exponent := by exact_mod_cast hend
      refine hlt (le_trans ?_ h.low)
      rw [four_quarters]
      have hscaled := mul_le_mul_of_nonneg_right hendRat (Double.step_pos (b.exponent - 2)).le
      linarith
    rw [hfirst] at h
    have hhalf := h.rounded_half (by omega) (not_le.mp hlt).le
    refine hhalf.nearest h.nonneg hb hsign ?_ fun _ => ?_
    · rw [Binary.size, hfirst, hstart, four_quarters, Nat.cast_pow, Nat.cast_pow, Nat.cast_ofNat,
        show b.exponent - 1 = (b.exponent - 2) + 1 by omega, zpow_add_one₀ (by norm_num)]
      ring
    · rw [hfirst, hstart]
      exact Nat.even_pow.mpr ⟨even_two, by omega⟩

/-- The same for doubles of both signs. -/
theorem Within.nearest (h : Within b.mantissa b.exponent q) (hb : Double.place? x = some b) :
    Double.Nearest (if b.negative then -q else q) x := by
  obtain ⟨negative, m, e⟩ := b
  cases negative with
  | false => exact h.nearest_positive hb rfl
  | true =>
    have hopposite : Double.place? (-x) = some ⟨false, m, e⟩ := by
      rw [Double.place?_neg, hb]
      rfl
    have hback : Double.place? (- -x) = Double.place? x := by
      rw [Double.place?_neg, hopposite, hb]
      rfl
    have hpositive : Double.Nearest q (-x) := nearest_positive (b := ⟨false, m, e⟩) h hopposite rfl
    exact hpositive.neg.congr hback

end Decimal

end DocumentRules
