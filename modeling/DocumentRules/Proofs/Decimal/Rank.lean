import DocumentRules.Json.Number
import Mathlib.Data.Prod.Lex

/-!
# The order of doubles

What has to be known of `<` and `==` on doubles is that apart from NaN they are a linear order, in
which the two zeros stand at one place. Nothing of it has to be assumed: a double is unpacked into a
sign, a mantissa and an exponent, and two of them are compared by these parts, so the order can be
read off the parts as well. `Double.rank?` does that. The rank is a triple of integers, compared
from the left: what sort of double it is, from negative to positive infinity, then exponent and
mantissa, with the opposite sign for negative doubles. (That the larger exponent belongs to the
larger double is a matter of how doubles are unpacked, and nothing here depends on it.)

NaN has no rank. That the numbers of a document all have one is the other half of the module. The
integers are the harder ones: the nearest double to an integer is found by rounding and is packed
again, and no step of that makes a NaN that was not there before.
-/

set_option autoImplicit false

namespace DocumentRules

namespace Double

open Float.Model (UnpackedFloat Format)
open Float.Model.UnpackedFloat

/-! ## Ranks -/

/-- A place in the order of doubles. -/
abbrev Rank := ℤ ×ₗ ℤ ×ₗ ℤ

/-- The rank of a double that is unpacked. -/
def rankOf? : UnpackedFloat → Option Rank
  | .notANumber => none
  | .infinity .negative => some (toLex (-2, toLex (0, 0)))
  | .finite .negative mantissa exponent _ => some (toLex (-1, toLex (-exponent, -mantissa)))
  | .zero _ => some (toLex (0, toLex (0, 0)))
  | .finite .positive mantissa exponent _ => some (toLex (1, toLex (exponent, mantissa)))
  | .infinity .positive => some (toLex (2, toLex (0, 0)))

/-- Where a double stands among the doubles. -/
def rank? (x : Float) : Option Rank :=
  rankOf? x.toModel.unpack

theorem compare_natCast (m n : ℕ) : compare (m : ℤ) (n : ℤ) = compare m n := by
  rw [Int.compare_eq_ite_lt, Nat.compare_eq_ite_lt]
  simp only [Int.ofNat_lt]

theorem compare_neg (m n : ℤ) : compare (-m) (-n) = (compare m n).swap := by
  rw [Int.compare_swap, Int.compare_eq_ite_lt, Int.compare_eq_ite_lt]
  simp only [Int.neg_lt_neg_iff]

/-- Doubles are compared as their ranks are. -/
theorem compare_eq_rankOf? (a b : UnpackedFloat) :
    a.compare b = (rankOf? a).bind fun r => (rankOf? b).map (compare r) := by
  rcases a with s | _ | s | ⟨s, m, e, hm⟩ <;> rcases b with t | _ | t | ⟨t, n, f, hn⟩ <;>
    (try cases s) <;> (try cases t) <;> try rfl
  · show some ((compare e f).then (compare m n)).swap =
      some ((compare (-e) (-f)).then (compare (-m : ℤ) (-n)))
    rw [compare_neg, compare_neg, compare_natCast, Ordering.swap_then]
  · show some ((compare e f).then (compare m n)) =
      some ((compare e f).then (compare (m : ℤ) n))
    rw [compare_natCast]

theorem lt_iff {x y : Float} :
    x < y ↔ ∃ r q, rank? x = some r ∧ rank? y = some q ∧ r < q := by
  have hlt : x < y ↔ (x.toModel.unpack.compare y.toModel.unpack == some .lt) = true := by
    show decide ((x.toModel.unpack.compare y.toModel.unpack == some .lt) = true) = true ↔ _
    rw [decide_eq_true_eq]
  rw [hlt, compare_eq_rankOf?, beq_iff_eq]
  simp only [rank?, Option.bind_eq_some_iff, Option.map_eq_some_iff, compare_lt_iff_lt]
  grind

theorem beq_iff {x y : Float} :
    (x == y) = true ↔ ∃ r, rank? x = some r ∧ rank? y = some r := by
  have hbeq : (x == y) = (x.toModel.unpack.compare y.toModel.unpack == some .eq) := rfl
  rw [hbeq, compare_eq_rankOf?, beq_iff_eq]
  simp only [rank?, Option.bind_eq_some_iff, Option.map_eq_some_iff, compare_eq_iff_eq]
  grind

theorem exists_rankOf {u : UnpackedFloat} (h : u.isNaN = false) : ∃ r, rankOf? u = some r := by
  rcases u with s | _ | s | ⟨s, m, e, hm⟩
  · cases s <;> exact ⟨_, rfl⟩
  · cases h
  · exact ⟨_, rfl⟩
  · cases s <;> exact ⟨_, rfl⟩

theorem exists_rank {x : Float} (h : x.isNaN = false) : ∃ r, rank? x = some r :=
  exists_rankOf h

/-! ## Doubles that are numbers -/

theorem isNaN_of_isFinite {x : Float} (h : x.isFinite = true) : x.isNaN = false := by
  change x.toModel.unpack.isFinite = true at h
  show x.toModel.unpack.isNaN = false
  cases hx : x.toModel.unpack with
  | notANumber =>
    rw [hx] at h
    cases h
  | _ => rfl

theorem isNaN_dite {c : Prop} [Decidable c] {u : c → UnpackedFloat} {v : ¬ c → UnpackedFloat}
    (hu : ∀ h, (u h).isNaN = false) (hv : ∀ h, (v h).isNaN = false) :
    (if h : c then u h else v h).isNaN = false := by
  by_cases h : c
  · rw [dif_pos h]
    exact hu h
  · rw [dif_neg h]
    exact hv h

theorem isNaN_unpack {b : BitVec Format.binary64.numBits} (h : unpackExponent b ≠ -1#_) :
    (unpack Format.binary64 b).isNaN = false := by
  unfold unpack
  dsimp only
  rw [if_neg h]
  by_cases hsubnormal : unpackExponent b = 0#_
  · rw [if_pos hsubnormal]
    exact isNaN_dite (fun _ => rfl) (fun _ => rfl)
  · rw [if_neg hsubnormal]
    rfl

/-- Packing a double makes no NaN of it: the exponent of all ones is kept for infinities and NaN. -/
theorem isNaN_unpack_pack (u : UnpackedFloat) :
    (unpack Format.binary64 (pack Format.binary64 u)).isNaN = u.isNaN := by
  fun_cases pack with
  | case1 => rfl
  | case2 s | case3 s | case4 s m e hm biased h => cases s <;> rfl
  | case5 s m e hm bits biased hbiased hbits =>
    refine isNaN_unpack fun hexponent => ?_
    rw [unpackExponent_packComponents] at hexponent
    have hones : biased % 2 ^ 11 = 2 ^ 11 - 1 := congrArg BitVec.toNat hexponent
    have hsmall : ¬ 2 ^ 11 ≤ biased + 1 := hbiased
    omega
  | case6 s m e hm bits biased hbiased hbits =>
    refine isNaN_unpack fun hexponent => ?_
    rw [unpackExponent_packComponents] at hexponent
    exact absurd hexponent (by decide)

theorem isNaN_ofModel_pack (u : UnpackedFloat) : (Float.ofModel (.pack u)).isNaN = u.isNaN :=
  isNaN_unpack_pack u

section Rounding

variable (spec : Format)

theorem isNaN_roundWithAccuracy (sign : Sign) (mantissa : ℕ) (exponent : ℤ)
    (accuracy : Accuracy) :
    (roundWithAccuracy spec sign mantissa exponent accuracy).isNaN = false := by
  unfold roundWithAccuracy
  exact isNaN_dite (fun _ => rfl) (fun _ => rfl)

theorem isNaN_unpackedOfInt (n : ℤ) : (UnpackedFloat.ofInt spec n).isNaN = false := by
  unfold UnpackedFloat.ofInt UnpackedFloat.normalize
  split
  · exact isNaN_roundWithAccuracy ..
  · rfl
  · exact isNaN_roundWithAccuracy ..

theorem isNaN_mul_finite {u v : UnpackedFloat} (hu : u.isNaN = false) {sign : Sign}
    {mantissa : ℕ} {exponent : ℤ} {hpos : 0 < mantissa}
    (hv : v = .finite sign mantissa exponent hpos) : (u.mul spec v).isNaN = false := by
  subst hv
  cases u with
  | notANumber => exact hu
  | infinity s | zero s => rfl
  | finite s m e h => exact isNaN_roundWithAccuracy ..

theorem isNaN_ofScientific (m : ℕ) : (UnpackedFloat.ofScientific spec m 0).isNaN = false := by
  unfold UnpackedFloat.ofScientific
  refine isNaN_dite (fun _ => rfl) fun hm => ?_
  rw [if_pos (Int.le_refl 0)]
  by_cases hlarge : (0 : ℤ) > 2 ^ spec.exponentBits
  · rw [if_pos hlarge]
    rfl
  · rw [if_neg hlarge]
    by_cases hsmall : (0 : ℤ) < -(2 ^ spec.exponentBits + m.log2)
    · rw [if_pos hsmall]
      rfl
    · rw [if_neg hsmall]
      exact isNaN_roundWithAccuracy ..

end Rounding

theorem isNaN_ofNat (n : ℕ) : (Float.ofNat n).isNaN = false := by
  unfold Float.ofNat OfScientific.ofScientific instOfScientificFloat Float.ofScientific
  dsimp only
  split
  · -- A number that fits the mantissa is converted exactly and multiplied by one.
    have hone : Float.exactlyRepresentablePowersOfTen[0].toModel.unpack =
        .finite .positive (2 ^ 52) (-52) (by decide) := by rfl
    have hn : n.toUInt64.toFloat.toModel.unpack.isNaN = false :=
      (isNaN_unpack_pack _).trans (isNaN_unpackedOfInt _ _)
    exact (isNaN_ofModel_pack _).trans (isNaN_mul_finite _ hn hone)
  · exact (isNaN_ofModel_pack _).trans (isNaN_ofScientific _ _)

theorem isNaN_neg (x : Float) : (-x).isNaN = x.isNaN := by
  refine (isNaN_ofModel_pack _).trans ?_
  show x.toModel.unpack.neg.isNaN = x.toModel.unpack.isNaN
  cases x.toModel.unpack <;> rfl

theorem isNaN_ofInt (n : ℤ) : (Float.ofInt n).isNaN = false := by
  cases n with
  | ofNat n => exact isNaN_ofNat n
  | negSucc n => exact (isNaN_neg _).trans (isNaN_ofNat _)

end Double

/-- **A number of a document is never NaN.** -/
theorem Number.isNaN_toFloat (n : Number) : n.toFloat.isNaN = false := by
  cases n with
  | int n => exact Double.isNaN_ofInt n
  | double x hx => exact Double.isNaN_of_isFinite hx

end DocumentRules
