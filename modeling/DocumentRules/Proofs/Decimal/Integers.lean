import DocumentRules.Json.Number
import Mathlib.Data.Rat.Floor

/-!
# Integers as doubles

An integer of at most 53 bits is a double, and converting it loses nothing. Its parts are known: the
mantissa is the integer moved up until it fills its 53 bits, and the exponent takes that back
(`Binary.ofFloat?_ofInt`). Nothing of it has to be assumed. The conversion rounds, multiplies and
packs, and each of the three is exact on a full mantissa with zeros behind it.
-/

set_option autoImplicit false

namespace DocumentRules

namespace Double

open Float.Model (UnpackedFloat Format)
open Float.Model.UnpackedFloat

/-! ## Full mantissas -/

/-- A mantissa that fills its 53 bits, the first of them included. -/
def Full (m : ℕ) : Prop :=
  2 ^ 52 ≤ m ∧ m < 2 ^ 53

/-- How far an integer can be moved up before it fills a mantissa. -/
def spare (n : ℕ) : ℕ :=
  52 - n.log2

theorem full_shifted {n : ℕ} (hpos : 0 < n) (hsmall : n < 2 ^ 53) : Full (n * 2 ^ spare n) := by
  have hlog : n.log2 ≤ 52 := by
    have hlt := (Nat.log2_lt (Nat.ne_of_gt hpos)).mpr hsmall
    omega
  have hsum : n.log2 + spare n = 52 := by
    unfold spare
    omega
  have hlow := Nat.log2_self_le (Nat.ne_of_gt hpos)
  have hhigh := Nat.lt_log2_self (n := n)
  constructor
  · calc 2 ^ 52 = 2 ^ n.log2 * 2 ^ spare n := by rw [← pow_add, hsum]
      _ ≤ n * 2 ^ spare n := Nat.mul_le_mul_right _ hlow
  · calc n * 2 ^ spare n < 2 ^ (n.log2 + 1) * 2 ^ spare n :=
          Nat.mul_lt_mul_of_pos_right hhigh (Nat.two_pow_pos _)
      _ = 2 ^ 53 := by rw [← pow_add, Nat.add_right_comm, hsum]

variable {m : ℕ} {e : ℤ} {sign : Sign}

theorem Full.pos (h : Full m) : 0 < m :=
  lt_of_lt_of_le (by decide) h.1

theorem Full.log2 (h : Full m) : m.log2 = 52 :=
  (Nat.log2_eq_iff h.pos.ne').mpr h

theorem log2_shifted {n : ℕ} (hpos : 0 < n) (k : ℕ) : (n * 2 ^ k).log2 = n.log2 + k := by
  have hne : n * 2 ^ k ≠ 0 := Nat.mul_ne_zero hpos.ne' (Nat.two_pow_pos k).ne'
  rw [Nat.log2_eq_iff hne, pow_add, Nat.add_right_comm, pow_add _ _ k]
  constructor
  · exact Nat.mul_le_mul_right _ (Nat.log2_self_le hpos.ne')
  · exact Nat.mul_lt_mul_of_pos_right Nat.lt_log2_self (Nat.two_pow_pos k)

/-! ## Rounding -/

/-- Zeros that are shifted out leave no trace. -/
theorem shiftRight_shifted (m k : ℕ) :
    ExtendedMantissa.mk (m * 2 ^ k) false false >>> k = ExtendedMantissa.mk m false false := by
  induction k generalizing m with
  | zero =>
    rw [pow_zero, mul_one]
    rfl
  | succ k ih =>
    have hlast : ExtendedMantissa.mk (m * 2) false false >>> 1 =
        ExtendedMantissa.mk m false false := by
      show ExtendedMantissa.mk (m * 2 / 2) (m * 2 % 2 != 0) _ = _
      rw [Nat.mul_div_cancel _ (by decide), Nat.mul_mod_left]
      rfl
    rw [pow_succ', ← mul_assoc, ← hlast, ← ih (m * 2)]
    rfl

theorem Full.targetExponent (h : Full m) (he : -1074 ≤ e) (k : ℕ) :
    Format.binary64.targetExponent (Float.Model.totalExponent (m * 2 ^ k) (e - k)) = e := by
  unfold Format.targetExponent Float.Model.totalExponent
  rw [log2_shifted h.pos, h.log2]
  show max ((52 + k : ℕ) + 1 + (e - k) - (53 : ℤ)) (-1074) = e
  omega

theorem Full.shiftToTargetExponent (h : Full m) (he : -1074 ≤ e) (k : ℕ) :
    shiftToTargetExponent Format.binary64 (m * 2 ^ k) (e - k) .exact =
      (ExtendedMantissa.mk m false false, e) := by
  unfold UnpackedFloat.shiftToTargetExponent shiftToExponent
  rw [h.targetExponent he k]
  have hshift : (e - (e - k)).toNat = k := by omega
  dsimp only
  rw [hshift, Int.sub_add_cancel]
  exact congrArg (·, e) (shiftRight_shifted m k)

/-- A full mantissa with zeros behind it is rounded to itself. -/
theorem Full.roundWithAccuracy (h : Full m) (he : -1074 ≤ e) (k : ℕ) (sign : Sign) :
    roundWithAccuracy Format.binary64 sign (m * 2 ^ k) (e - k) .exact =
      .finite sign m e h.pos := by
  have hfirst := h.shiftToTargetExponent he k
  have hagain := h.shiftToTargetExponent he 0
  rw [pow_zero, mul_one, Nat.cast_zero, Int.sub_zero] at hagain
  have hround : (ExtendedMantissa.mk m false false).roundedMantissa = m := rfl
  unfold UnpackedFloat.roundWithAccuracy
  rw [hfirst]
  dsimp only
  rw [hround, hagain]
  exact dif_neg h.pos.ne'

/-- An integer is moved up to fill a mantissa before it is rounded. -/
theorem round_full {n k : ℕ} (hpos : 0 < n) (h : Full (n * 2 ^ k)) (he : -1074 ≤ e - k)
    (sign : Sign) :
    UnpackedFloat.round Format.binary64 sign n e = .finite sign (n * 2 ^ k) (e - k) h.pos := by
  have htarget : Format.binary64.targetExponent (Float.Model.totalExponent n e) = e - k := by
    have hshifted := h.targetExponent he 0
    unfold Float.Model.totalExponent at hshifted ⊢
    rw [pow_zero, mul_one, log2_shifted hpos, Nat.cast_zero, Int.sub_zero] at hshifted
    rw [← hshifted]
    congr 1
    omega
  have hround := h.roundWithAccuracy he 0 sign
  rw [pow_zero, mul_one, Nat.cast_zero, Int.sub_zero] at hround
  have hshift : (e - (e - k)).toNat = k := by omega
  unfold UnpackedFloat.round decreaseExponent
  rw [htarget]
  dsimp only
  rw [hshift, Nat.shiftLeft_eq]
  exact hround

/-! ## Packing -/

theorem toNat_one_append {width : ℕ} (v : BitVec width) :
    (1#1 ++ v).toNat = 2 ^ width + v.toNat := by
  rw [BitVec.toNat_append, ← Nat.shiftLeft_add_eq_or_of_lt v.isLt]
  show 1 <<< width + _ = _
  rw [Nat.one_shiftLeft]

/-- What the three fields of a double are unpacked to. -/
def ofFields (sign : Sign) (exponent : BitVec 11) (mantissa : BitVec 52) : UnpackedFloat :=
  if exponent = -1#11 then
    if mantissa = 0#52 then .infinity sign else .notANumber
  else if exponent = 0#11 then
    if hzero : mantissa = 0#52 then .zero sign
    else .finite sign mantissa.toNat (exponent.toNat - 1075 + 1)
      (Nat.pos_of_ne_zero fun h => hzero (BitVec.eq_of_toNat_eq h))
  else .finite sign (1#1 ++ mantissa).toNat (exponent.toNat - 1075)
    (toNat_one_append mantissa ▸ Nat.add_pos_left (Nat.two_pow_pos 52) _)

theorem unpack_eq_ofFields (bits : BitVec Format.binary64.numBits) :
    unpack Format.binary64 bits =
      ofFields (.ofBitVec (unpackSign bits)) (unpackExponent bits) (unpackMantissa bits) :=
  rfl

theorem ofBitVec_unpackSign (sign : Sign) (exponent : BitVec 11) (mantissa : BitVec 52) :
    Sign.ofBitVec (unpackSign (packComponents Format.binary64 sign exponent mantissa)) = sign := by
  show Sign.ofBitVec (BitVec.extractLsb' 63 1 ((sign.toBitVec ++ exponent) ++ mantissa)) = sign
  rw [BitVec.extractLsb'_append_eq_of_le (by decide),
    BitVec.extractLsb'_append_eq_of_le (by decide)]
  cases sign <;> rfl

theorem unpack_packComponents (sign : Sign) (exponent : BitVec 11) (mantissa : BitVec 52) :
    unpack Format.binary64 (packComponents Format.binary64 sign exponent mantissa) =
      ofFields sign exponent mantissa := by
  rw [unpack_eq_ofFields, ofBitVec_unpackSign, unpackExponent_packComponents,
    unpackMantissa_packComponents]

/-- A full mantissa survives packing, as long as its exponent has room. -/
theorem Full.unpack_pack (h : Full m) (he : -1074 ≤ e) (he' : e ≤ 971) (sign : Sign) :
    unpack Format.binary64 (pack Format.binary64 (.finite sign m e h.pos)) =
      .finite sign m e h.pos := by
  obtain ⟨biased, hbiased⟩ := Int.eq_ofNat_of_zero_le (a := e + 1075) (by omega)
  have hpack : pack Format.binary64 (.finite sign m e h.pos) =
      packComponents Format.binary64 sign (BitVec.ofNat 11 biased) (BitVec.ofNat 52 m) := by
    have hexponent : (e + (1023 : ℕ) + (52 : ℕ)).toNat = biased := by omega
    show (if 2 ^ 11 ≤ (e + (1023 : ℕ) + (52 : ℕ)).toNat + 1 then _
      else if m.log2 + 1 = 53 then
        packComponents Format.binary64 sign (BitVec.ofNat 11 (e + (1023 : ℕ) + (52 : ℕ)).toNat) _
      else _) = _
    rw [hexponent, h.log2, if_neg (by omega), if_pos rfl]
  have hexponent : (BitVec.ofNat 11 biased).toNat = biased := by
    rw [BitVec.toNat_ofNat, Nat.mod_eq_of_lt (by omega)]
  have hmantissa : (1#1 ++ BitVec.ofNat 52 m).toNat = m := by
    have hm : 2 ^ 52 ≤ m ∧ m < 2 ^ 53 := h
    rw [toNat_one_append, BitVec.toNat_ofNat]
    omega
  have hzero : BitVec.ofNat 11 biased ≠ 0#11 := by
    intro heq
    have htoNat := congrArg BitVec.toNat heq
    rw [hexponent] at htoNat
    change biased = 0 at htoNat
    omega
  have hones : BitVec.ofNat 11 biased ≠ -1#11 := by
    intro heq
    have htoNat := congrArg BitVec.toNat heq
    rw [hexponent] at htoNat
    change biased = 2047 at htoNat
    omega
  have hback : ((BitVec.ofNat 11 biased).toNat : ℤ) - 1075 = e := by
    rw [hexponent]
    omega
  rw [hpack, unpack_packComponents]
  unfold ofFields
  rw [if_neg hones, if_neg hzero, UnpackedFloat.finite.injEq]
  exact ⟨rfl, hmantissa, hback⟩

/-! ## Converting -/

theorem unpack_ofModel_pack (u : UnpackedFloat) :
    (Float.ofModel (.pack u)).toModel.unpack = unpack Format.binary64 (pack Format.binary64 u) :=
  rfl

/-- A positive integer below `2 ^ 53`, as it is held: full, with the zeros taken back. -/
theorem unpack_toFloat {n : ℕ} (hpos : 0 < n) (hsmall : n < 2 ^ 53) :
    n.toUInt64.toFloat.toModel.unpack =
      .finite .positive (n * 2 ^ spare n) (-spare n) (full_shifted hpos hsmall).pos := by
  have hfull := full_shifted hpos hsmall
  have hspare : spare n ≤ 52 := Nat.sub_le _ _
  have hword : n.toUInt64.toNat = n := Nat.mod_eq_of_lt (by omega)
  have hround : UnpackedFloat.ofUInt64 Format.binary64 n.toUInt64 =
      .finite .positive (n * 2 ^ spare n) (-spare n) hfull.pos := by
    have hround := round_full (e := 0) hpos hfull (by omega) .positive
    rw [Int.zero_sub] at hround
    show UnpackedFloat.normalize Format.binary64 (n.toUInt64.toNat : ℤ) 0 .positive = _
    rw [hword, ← hround]
    unfold UnpackedFloat.normalize
    rw [compare_gt_iff_gt.mpr (Int.natCast_pos.mpr hpos)]
    rfl
  show (Float.ofModel (.pack
    (UnpackedFloat.ofUInt64 Format.binary64 n.toUInt64))).toModel.unpack = _
  rw [unpack_ofModel_pack, hround]
  exact hfull.unpack_pack (by omega) (by omega) .positive

theorem unpack_ofNat {n : ℕ} (hpos : 0 < n) (hsmall : n < 2 ^ 53) :
    (Float.ofNat n).toModel.unpack =
      .finite .positive (n * 2 ^ spare n) (-spare n) (full_shifted hpos hsmall).pos := by
  have hfull := full_shifted hpos hsmall
  have hspare : spare n ≤ 52 := Nat.sub_le _ _
  have hone : Float.exactlyRepresentablePowersOfTen[0].toModel.unpack =
      .finite .positive (2 ^ 52) (-52) (by decide) := by rfl
  have hproduct : UnpackedFloat.mul Format.binary64 n.toUInt64.toFloat.toModel.unpack
      Float.exactlyRepresentablePowersOfTen[0].toModel.unpack =
      .finite .positive (n * 2 ^ spare n) (-spare n) hfull.pos := by
    rw [unpack_toFloat hpos hsmall, hone]
    exact hfull.roundWithAccuracy (by omega) 52 .positive
  unfold Float.ofNat OfScientific.ofScientific instOfScientificFloat Float.ofScientific
  dsimp only
  rw [dif_pos ⟨hsmall, by decide⟩]
  show (Float.ofModel (.pack (UnpackedFloat.mul Format.binary64 n.toUInt64.toFloat.toModel.unpack
      Float.exactlyRepresentablePowersOfTen[0].toModel.unpack))).toModel.unpack = _
  rw [unpack_ofModel_pack, hproduct]
  exact hfull.unpack_pack (by omega) (by omega) .positive

theorem unpack_neg (x : Float) :
    (-x).toModel.unpack = unpack Format.binary64 (pack Format.binary64 x.toModel.unpack.neg) :=
  rfl

end Double

theorem Number.lt_of_safe {n : ℕ} (hsafe : n ≤ Number.safeInteger) : n < 2 ^ 53 :=
  Nat.lt_of_le_sub_one (Nat.two_pow_pos 53) hsafe

/-- **An integer of at most 53 bits is held exactly**: its mantissa is the integer itself, moved up
by as much as the exponent takes back. -/
theorem Binary.ofFloat?_ofInt {n : ℤ} (hsafe : n.natAbs ≤ Number.safeInteger) :
    ∃ k : ℕ, k ≤ 52 ∧
      Binary.ofFloat? (Float.ofInt n) = some ⟨decide (n < 0), n.natAbs * 2 ^ k, -k⟩ := by
  have hsmall := Number.lt_of_safe hsafe
  have hspare : ∀ m, Double.spare m ≤ 52 := fun m => Nat.sub_le _ _
  cases n with
  | ofNat n =>
    rcases Nat.eq_zero_or_pos n with rfl | hpos
    · exact ⟨0, by decide, rfl⟩
    · refine ⟨Double.spare n, hspare n, ?_⟩
      have hunpack := Double.unpack_ofNat hpos hsmall
      show Binary.ofFloat? (Float.ofNat n) = _
      unfold Binary.ofFloat?
      rw [hunpack]
      rfl
  | negSucc n =>
    have hpos : 0 < n + 1 := Nat.succ_pos n
    have hfull := Double.full_shifted hpos hsmall
    refine ⟨Double.spare (n + 1), hspare (n + 1), ?_⟩
    have hunpack : (-Float.ofNat (n + 1)).toModel.unpack =
        .finite .negative ((n + 1) * 2 ^ Double.spare (n + 1)) (-Double.spare (n + 1))
          hfull.pos := by
      rw [Double.unpack_neg, Double.unpack_ofNat hpos hsmall]
      have hroom := hspare (n + 1)
      exact hfull.unpack_pack (by omega) (by omega) .negative
    show Binary.ofFloat? (-Float.ofNat (n + 1)) = _
    unfold Binary.ofFloat?
    rw [hunpack, decide_eq_true (Int.negSucc_lt_zero n)]
    rfl

end DocumentRules
