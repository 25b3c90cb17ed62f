import DocumentRules.Proofs.Decimal.Reading
import DocumentRules.Proofs.Decimal.Values

/-!
# Calculating with doubles

A sum of doubles is computed on their parts. Both mantissas are brought to the smaller exponent,
they are added there as integers, and what comes out is rounded once. So a sum of finite doubles
is the double nearest to the sum of their values (`Double.nearest_add`), and it is that sum where
this is a double itself.

Integers of at most 53 bits are doubles, and larger ones are converted to the nearest
(`Double.nearest_ofInt`). In the other direction nothing is rounded: cutting off a fraction
gives the whole part (`HasValue.trunc`), and a double that is a count is converted to that
count (`HasValue.toUInt64`).
-/

set_option autoImplicit false

namespace DocumentRules

namespace Double

open Float.Model (UnpackedFloat Format)
open Float.Model.UnpackedFloat

variable {m n : ℕ} {e : ℤ} {u v : UnpackedFloat} {p q : ℚ} {x y : Float} {b : Binary}

/-! ## Signs -/

/-- The sign of a double is packed apart from the rest. -/
theorem unpack_packComponents_neg (sign : Sign) (exponent : BitVec 11) (mantissa : BitVec 52) :
    unpack Format.binary64 (packComponents Format.binary64 (-sign) exponent mantissa) =
      (unpack Format.binary64 (packComponents Format.binary64 sign exponent mantissa)).neg := by
  rw [unpack_packComponents, unpack_packComponents]
  unfold ofFields
  rw [apply_ite UnpackedFloat.neg, apply_ite UnpackedFloat.neg, apply_ite UnpackedFloat.neg,
    apply_dite UnpackedFloat.neg]
  rfl

theorem unpack_pack_neg (u : UnpackedFloat) :
    unpack Format.binary64 (pack Format.binary64 u.neg) =
      (unpack Format.binary64 (pack Format.binary64 u)).neg := by
  cases u with
  | notANumber => rfl
  | infinity sign | zero sign => exact unpack_packComponents_neg sign _ _
  | finite sign m e hm =>
    -- the other two fields do not depend on the sign
    obtain ⟨exponent, mantissa, hpack⟩ : ∃ (exponent : BitVec 11) (mantissa : BitVec 52),
        ∀ sign, pack Format.binary64 (.finite sign m e hm) =
          packComponents Format.binary64 sign exponent mantissa := by
      by_cases hlarge : 2 ^ 11 ≤ (e + (1023 : ℕ) + (52 : ℕ)).toNat + 1
      · exact ⟨-1#11, 0#52, fun sign => if_pos hlarge⟩
      by_cases hfull : m.log2 + 1 = 53
      · exact ⟨_, _, fun sign => (if_neg hlarge).trans (if_pos hfull)⟩
      · exact ⟨_, _, fun sign => (if_neg hlarge).trans (if_neg hfull)⟩
    show unpack Format.binary64 (pack Format.binary64 (.finite (-sign) m e hm)) = _
    rw [hpack, hpack]
    exact unpack_packComponents_neg sign exponent mantissa

/-- The sign plays no part in rounding. -/
theorem round_neg (sign : Sign) (m : ℕ) (e : ℤ) :
    UnpackedFloat.round Format.binary64 (-sign) m e =
      (UnpackedFloat.round Format.binary64 sign m e).neg := by
  unfold UnpackedFloat.round roundWithAccuracy
  dsimp only
  rw [apply_dite UnpackedFloat.neg]
  rfl

/-- Packing a double with the other sign makes the opposite double. -/
theorem place?_pack_neg (u : UnpackedFloat) :
    place? (.ofModel (.pack u.neg)) = place? (-.ofModel (.pack u)) := by
  unfold place?
  rw [unpack_opposite, unpack_ofModel_pack, unpack_ofModel_pack, unpack_pack_neg]

/-! ## Sums -/

theorem hasValue_pack_zero (sign : Sign) : HasValue (.ofModel (.pack (.zero sign))) 0 := by
  cases sign <;> exact .zero _

/-- What is unpacked is packed again without a loss. -/
theorem Denotes.hasValue_pack (h : Denotes u q) : HasValue (.ofModel (.pack u)) q := by
  unfold HasValue
  rw [unpack_ofModel_pack]
  cases h with
  | zero sign => exact hasValue_pack_zero sign
  | finite sign held hlast hpos =>
    rw [unpack_pack_of_held held hpos hlast]
    exact .finite sign held hlast hpos
  | infinity sign => cases sign <;> exact .infinity _

theorem nearest_round (hm : 0 < m) (e : ℤ) :
    Nearest (m * 2 ^ e) (.ofModel (.pack (UnpackedFloat.round Format.binary64 .positive m e))) := by
  obtain ⟨t, ht⟩ : ∃ t, max ((m.log2 : ℤ) + e - 52) (-1074) = t := ⟨_, rfl⟩
  unfold UnpackedFloat.round decreaseExponent
  dsimp only
  rw [targetExponent_eq, ht, Nat.shiftLeft_eq]
  obtain ⟨k, hk⟩ : ∃ k, (e - t).toNat = k := ⟨_, rfl⟩
  rw [hk]
  have hfits : 2 ^ 52 ≤ m * 2 ^ k ∨ e - k ≤ -1074 := by
    by_cases hleast : e - k ≤ -1074
    · exact .inr hleast
    · left
      calc 2 ^ 52 ≤ 2 ^ (m.log2 + k) := Nat.pow_le_pow_right (by omega) (by omega)
        _ = 2 ^ m.log2 * 2 ^ k := pow_add _ _ _
        _ ≤ m * 2 ^ k := Nat.mul_le_mul_right _ (Nat.log2_self_le hm.ne')
  have hvalue : (m * 2 ^ e : ℚ) = (m * 2 ^ k : ℕ) * 2 ^ (e - k) := by
    rw [zpow_sub₀ (by norm_num), zpow_natCast]
    push_cast
    field_simp
  rw [hvalue]
  exact nearest_roundWithAccuracy (stands_exact (m * 2 ^ k)) hfits

/-- A signed mantissa is rounded to the nearest double. -/
theorem nearest_normalize (mantissa e : ℤ) :
    Nearest (mantissa * 2 ^ e)
      (.ofModel (.pack (UnpackedFloat.normalize Format.binary64 mantissa e .positive))) := by
  unfold UnpackedFloat.normalize
  rcases lt_trichotomy mantissa 0 with hneg | rfl | hpos
  · obtain ⟨m, rfl⟩ : ∃ m : ℕ, mantissa = -m := ⟨mantissa.natAbs, by omega⟩
    have hopposite := (nearest_round (m := m) (by omega) e).neg
    have hvalue : ((-m : ℤ) : ℚ) * 2 ^ e = -(m * 2 ^ e) := by
      rw [Int.cast_neg, Int.cast_natCast, neg_mul]
    rw [compare_lt_iff_lt.mpr hneg, hvalue]
    dsimp only
    rw [Int.neg_neg, Int.toNat_natCast]
    exact hopposite.congr ((place?_pack_neg _).symm.trans
      (congrArg (fun u => place? (.ofModel (.pack u))) (round_neg .positive m e).symm))
  · rw [compare_eq_iff_eq.mpr rfl, Int.cast_zero, zero_mul]
    exact (hasValue_pack_zero .positive).nearest
  · obtain ⟨m, rfl⟩ : ∃ m : ℕ, mantissa = m := ⟨mantissa.natAbs, by omega⟩
    rw [compare_gt_iff_gt.mpr hpos]
    dsimp only
    rw [Int.toNat_natCast, Int.cast_natCast]
    exact nearest_round (by omega) e

theorem apply_mul_eq_signed (sign : Sign) (m : ℕ) (e : ℤ) :
    ((sign.apply m : ℤ) : ℚ) * 2 ^ e = signed sign (Binary.size ⟨false, m, e⟩) := by
  cases sign with
  | negative =>
    show ((-(m : ℤ) : ℤ) : ℚ) * 2 ^ e = -(m * 2 ^ e)
    push_cast
    ring
  | positive => rfl

/-- A mantissa with zeros behind it and a smaller exponent makes the same number. -/
theorem decreaseExponent_value (sign : Sign) (m : ℕ) {e t : ℤ} (h : t ≤ e) :
    ((sign.apply (decreaseExponent m e t).1 : ℤ) : ℚ) * 2 ^ t =
      signed sign (Binary.size ⟨false, m, e⟩) := by
  obtain ⟨k, hk⟩ : ∃ k : ℕ, e = t + k := ⟨(e - t).toNat, by omega⟩
  have hshift : (e - t).toNat = k := by omega
  have hmantissa : (decreaseExponent m e t).1 = m * 2 ^ k := by
    unfold decreaseExponent
    dsimp only
    rw [hshift, Nat.shiftLeft_eq]
  rw [← apply_mul_eq_signed, hmantissa, hk, zpow_add₀ (by norm_num), zpow_natCast]
  cases sign with
  | negative =>
    show ((-((m * 2 ^ k : ℕ) : ℤ) : ℤ) : ℚ) * 2 ^ t = ((-(m : ℤ) : ℤ) : ℚ) * _
    push_cast
    ring
  | positive =>
    show (((m * 2 ^ k : ℕ) : ℤ) : ℚ) * 2 ^ t = ((m : ℤ) : ℚ) * _
    push_cast
    ring

/-- **A sum of finite doubles is the double nearest to the sum of their values.** -/
theorem nearest_add (hx : HasValue x p) (hy : HasValue y q) (hxfinite : x.isFinite = true)
    (hyfinite : y.isFinite = true) : Nearest (p + q) (x + y) := by
  show Nearest (p + q) (.ofModel (.pack (UnpackedFloat.add Format.binary64 x.toModel.unpack
    y.toModel.unpack)))
  unfold HasValue at hx hy
  change x.toModel.unpack.isFinite = true at hxfinite
  change y.toModel.unpack.isFinite = true at hyfinite
  generalize x.toModel.unpack = u at hx hxfinite
  generalize y.toModel.unpack = v at hy hyfinite
  cases hx with
  | infinity s => cases hxfinite
  | zero s =>
    rw [zero_add]
    cases hy with
    | infinity t => cases hyfinite
    | zero t =>
      have hsum : ∃ r, UnpackedFloat.add Format.binary64 (.zero s) (.zero t) = .zero r := by
        cases s <;> cases t <;> exact ⟨_, rfl⟩
      obtain ⟨r, hr⟩ := hsum
      rw [hr]
      exact (hasValue_pack_zero r).nearest
    | finite t held hlast hpos => exact (Denotes.finite t held hlast hpos).hasValue_pack.nearest
  | finite s held hlast hpos =>
    cases hy with
    | infinity t => cases hyfinite
    | zero t =>
      rw [add_zero]
      exact (Denotes.finite s held hlast hpos).hasValue_pack.nearest
    | finite t held' hlast' hpos' =>
      rw [← decreaseExponent_value s _ (Int.min_le_left _ _),
        ← decreaseExponent_value t _ (Int.min_le_right _ _), ← add_mul, ← Int.cast_add]
      exact nearest_normalize _ _

/-- An infinity swallows whatever finite double it is added to. -/
theorem HasValue.add_infinite (hx : HasValue x p) (hy : HasValue y q) (hxfinite : x.isFinite = true)
    (hyfinite : y.isFinite = false) : HasValue (x + y) q := by
  have hsum : x + y = .ofModel (.pack (UnpackedFloat.add Format.binary64 x.toModel.unpack
    y.toModel.unpack)) := rfl
  unfold HasValue at hx hy
  change x.toModel.unpack.isFinite = true at hxfinite
  change y.toModel.unpack.isFinite = false at hyfinite
  rw [hsum]
  generalize x.toModel.unpack = u at hx hxfinite
  generalize y.toModel.unpack = v at hy hyfinite
  cases hy with
  | zero t | finite t held hlast hpos => cases hyfinite
  | infinity t =>
    cases hx with
    | infinity s => cases hxfinite
    | zero s | finite s held hlast hpos => exact (Denotes.infinity t).hasValue_pack

/-! ## Integers -/

theorem two_pow_lt_limit {k : ℕ} (hk : k < 1024) : (2 : ℚ) ^ k < limit := by
  have hlimit : limit = 2 ^ 1024 := by
    rw [limit, ← zpow_natCast, ← zpow_natCast, ← zpow_add₀ (by norm_num)]
    rfl
  rw [hlimit]
  exact pow_lt_pow_right₀ (by norm_num) hk

theorem hasValue_ofNat (h : n < 2 ^ 53) : HasValue (Float.ofNat n) n := by
  rcases Nat.eq_zero_or_pos n with rfl | hpos
  · exact .zero .positive
  · have hfull := full_shifted hpos h
    have hspare : spare n ≤ 52 := Nat.sub_le _ _
    have hvalue :
        (n : ℚ) = signed .positive (Binary.size ⟨false, n * 2 ^ spare n, -spare n⟩) := by
      show (n : ℚ) = (n * 2 ^ spare n : ℕ) * 2 ^ (-spare n : ℤ)
      rw [zpow_neg, zpow_natCast]
      push_cast
      field_simp
    unfold HasValue
    rw [unpack_ofNat hpos h, hvalue]
    exact .finite .positive ⟨hfull.2, by dsimp only; omega, .inr hfull.1⟩ (by omega) hfull.pos

theorem nearest_ofNat (n : ℕ) : Nearest n (Float.ofNat n) := by
  have hnearest := nearest_ofScientific n false 0
  unfold scientificValue at hnearest
  rwa [if_neg Bool.false_ne_true, pow_zero, mul_one] at hnearest

/-- An integer is converted to the nearest double. -/
theorem nearest_ofInt (n : ℤ) : Nearest n (Float.ofInt n) := by
  cases n with
  | ofNat n => exact nearest_ofNat n
  | negSucc n =>
    rw [Int.cast_negSucc]
    exact (nearest_ofNat (n + 1)).neg

/-- An integer of at most 53 bits is a double. -/
theorem hasValue_ofInt {n : ℤ} (h : n.natAbs < 2 ^ 53) : HasValue (Float.ofInt n) n := by
  cases n with
  | ofNat n => exact hasValue_ofNat h
  | negSucc n =>
    rw [Int.cast_negSucc]
    exact (hasValue_ofNat h).neg

theorem isFinite_ofNat (h : n < 2 ^ 53) : (Float.ofNat n).isFinite = true := by
  refine (hasValue_ofNat h).isFinite ?_
  rw [Nat.abs_cast]
  exact (by exact_mod_cast h : (n : ℚ) < 2 ^ 53).trans (two_pow_lt_limit (by omega))

/-! ## Whole parts -/

theorem wholePart_signed (sign : Sign) (q : ℚ) :
    (wholePart (signed sign q) : ℚ) = signed sign (wholePart q) := by
  cases sign with
  | negative =>
    show (wholePart (-q) : ℚ) = -wholePart q
    rw [wholePart_neg, Int.cast_neg]
  | positive => rfl

/-- Parts with an exponent that is not negative are an integer. -/
theorem wholePart_size (h : 0 ≤ b.exponent) : (wholePart b.size : ℚ) = b.size := by
  obtain ⟨k, hk⟩ := Int.eq_ofNat_of_zero_le h
  have hinteger : b.size = (b.mantissa * 2 ^ k : ℕ) := by
    rw [Binary.size, hk, zpow_natCast]
    push_cast
    rfl
  have hwhole := wholePart_intCast (b.mantissa * 2 ^ k : ℕ)
  rw [Int.cast_natCast, ← hinteger] at hwhole
  rw [hwhole, Int.cast_natCast, hinteger]

theorem wholePart_limit : (wholePart limit : ℚ) = limit := by
  rw [← size_infinity false]
  exact wholePart_size (by dsimp only; omega)

/-- **Truncation gives the whole part**, as a double. -/
theorem HasValue.trunc (h : HasValue x q) : HasValue (Double.trunc x) (wholePart q) := by
  have hsame := h
  unfold HasValue at h
  unfold Double.trunc Binary.ofFloat?
  cases hx : x.toModel.unpack with
  | notANumber =>
    rw [hx] at h
    cases h
  | zero sign =>
    rw [hx] at h
    cases h
    exact hsame
  | infinity sign =>
    rw [hx] at h
    cases h
    rw [wholePart_signed, wholePart_limit]
    exact hsame
  | finite sign m e hpos =>
    rw [hx] at h
    cases h with
    | finite sign held hlast hpos =>
      dsimp only
      rw [wholePart_signed]
      split
      · next hexponent =>
        rw [wholePart_size hexponent]
        exact hsame
      · next hexponent =>
        have hwhole := Binary.whole_eq ⟨sign == .negative, m, e⟩
        have hsmall : Binary.whole ⟨sign == .negative, m, e⟩ < 2 ^ 53 := by
          unfold Binary.whole
          rw [if_neg hexponent]
          exact (Nat.div_le_self _ _).trans_lt held.small
        have hnat := hasValue_ofNat hsmall
        rw [← Int.cast_natCast, hwhole] at hnat
        cases sign with
        | negative => exact hnat.neg
        | positive => exact hnat

/-! ## Back to counts -/

theorem mantissa_shiftRight (em : ExtendedMantissa) (k : ℕ) :
    (em >>> k).mantissa = em.mantissa / 2 ^ k := by
  induction k with
  | zero => exact (Nat.div_one _).symm
  | succ k ih =>
    show (em >>> k).mantissa / 2 = _
    rw [ih, Nat.div_div_eq_div_mul, ← pow_succ]

theorem roundToInt_eq (sign : Sign) (m : ℕ) (e : ℤ) (negative : Bool) :
    roundToInt sign m e = sign.apply (Binary.whole ⟨negative, m, e⟩) := by
  unfold roundToInt shiftToExponent decreaseExponent Binary.whole
  dsimp only
  rw [mantissa_shiftRight]
  show sign.apply (m <<< (e - 0).toNat / 2 ^ (0 - (e - (e - 0).toNat)).toNat : ℕ) = _
  rw [Nat.shiftLeft_eq]
  congr 2
  split
  · next hexponent =>
    have hback : (0 - (e - (e - 0).toNat)).toNat = 0 := by omega
    rw [hback, pow_zero, Nat.div_one, Int.sub_zero]
    rfl
  · next hexponent =>
    have hshift : (e - 0).toNat = 0 := by omega
    rw [hshift, pow_zero, Nat.mul_one, Nat.cast_zero, Int.sub_zero, Int.zero_sub]
    rfl

/-- A finite double is converted to its whole part. -/
theorem Denotes.toInt_eq (h : Denotes u q) (hfinite : u.isFinite = true) (low high : ℤ) :
    u.toInt low high = wholePart q := by
  cases h with
  | zero sign => rfl
  | infinity sign => cases hfinite
  | @finite sign m e held hlast hpos =>
    have hwhole := Binary.whole_eq ⟨false, m, e⟩
    show roundToInt sign m e = _
    rw [roundToInt_eq sign m e false, hwhole]
    cases sign with
    | negative => exact (wholePart_neg _).symm
    | positive => rfl

/-- A double that is a count is converted to that count. -/
theorem HasValue.toUInt64 (h : HasValue x n) (hn : n < 2 ^ 64) : x.toUInt64.toNat = n := by
  have hconvert : x.toUInt64 =
      UInt64.ofNatClamp (x.toModel.unpack.toInt 0 (UInt64.size - 1)).toNat := rfl
  have hfinite : x.isFinite = true := by
    refine h.isFinite ?_
    rw [Nat.abs_cast]
    exact (by exact_mod_cast hn : (n : ℚ) < 2 ^ 64).trans (two_pow_lt_limit (by omega))
  have hint : x.toModel.unpack.toInt 0 (UInt64.size - 1) = n := by
    rw [Denotes.toInt_eq h hfinite, ← Int.cast_natCast, wholePart_intCast]
  have hsize : n < UInt64.size := hn
  rw [hconvert, hint, Int.toNat_natCast, UInt64.ofNatClamp, dif_pos hsize]
  rfl

end Double

end DocumentRules
