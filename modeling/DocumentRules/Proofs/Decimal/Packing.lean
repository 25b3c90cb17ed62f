import DocumentRules.Proofs.Decimal.Integers
import DocumentRules.Proofs.Decimal.Worth

/-!
# Which parts doubles have

A double that is unpacked has a mantissa of at most 53 bits, and it has all 53 of them unless its
exponent is the least one. `Double.Held` says this of parts, and it is all there is to know: parts
that are held come back as they are when they are packed into 64 bits and unpacked again
(`Double.unpack_pack_of_held`). An exponent that is too large makes an infinity.

To compare doubles with numbers that are no doubles, each of them gets a place (`Double.place?`).
That of an infinity is the place of the double that would come after the last one. A NaN has none. A
place tells all 64 bits (`Double.place?_inj`), and so doubles that compare as equal are one double,
or zeros of both signs (`Double.eq_or_zeros_of_beq`).
-/

set_option autoImplicit false

namespace DocumentRules

namespace Double

open Float.Model (UnpackedFloat Format)
open Float.Model.UnpackedFloat

/-! ## Parts that are held -/

/-- The parts of a double but for the bound on its exponent: a mantissa of 53 bits, of which the
first is set unless the exponent is the least one. -/
structure Held (b : Binary) : Prop where
  small : b.mantissa < 2 ^ 53
  least : -1074 ≤ b.exponent
  full : b.exponent = -1074 ∨ 2 ^ 52 ≤ b.mantissa

variable {sign : Sign} {m : ℕ} {e : ℤ} {negative : Bool}

theorem held_of_unpack (negative : Bool) {bits : BitVec Format.binary64.numBits} {hm : 0 < m}
    (h : unpack Format.binary64 bits = .finite sign m e hm) : Held ⟨negative, m, e⟩ ∧ e ≤ 971 := by
  rw [unpack_eq_ofFields] at h
  generalize @unpackExponent Format.binary64 bits = exponent at h
  generalize @unpackMantissa Format.binary64 bits = mantissa at h
  have hfield : mantissa.toNat < 2 ^ 52 := mantissa.isLt
  have hbound : exponent.toNat < 2 ^ 11 := exponent.isLt
  unfold ofFields at h
  by_cases hones : exponent = -1#11
  · rw [if_pos hones] at h
    by_cases hzero : mantissa = 0#52
    · rw [if_pos hzero] at h
      cases h
    · rw [if_neg hzero] at h
      cases h
  rw [if_neg hones] at h
  by_cases hleast : exponent = 0#11
  · rw [if_pos hleast] at h
    by_cases hzero : mantissa = 0#52
    · rw [dif_pos hzero] at h
      cases h
    · -- the least exponent, and a mantissa without the leading bit
      rw [dif_neg hzero, UnpackedFloat.finite.injEq, hleast] at h
      obtain ⟨-, rfl, hexponent⟩ := h
      have he : e = -1074 := hexponent.symm
      refine ⟨⟨?_, ?_, .inl he⟩, by omega⟩
      · show mantissa.toNat < 2 ^ 53
        omega
      · show -1074 ≤ e
        omega
  · have hlast : exponent.toNat ≠ 2047 := fun heq => hones (BitVec.eq_of_toNat_eq heq)
    have hfirst : exponent.toNat ≠ 0 := fun heq => hleast (BitVec.eq_of_toNat_eq heq)
    rw [if_neg hleast, UnpackedFloat.finite.injEq, toNat_one_append] at h
    obtain ⟨-, hmantissa, hexponent⟩ := h
    change 2 ^ 52 + mantissa.toNat = m at hmantissa
    refine ⟨⟨?_, ?_, .inr ?_⟩, by omega⟩
    · show m < 2 ^ 53
      omega
    · show -1074 ≤ e
      omega
    · show 2 ^ 52 ≤ m
      omega

/-! ## Packing -/

/-- A mantissa without its leading bit survives packing with the least exponent. -/
theorem unpack_pack_least (hpos : 0 < m) (hm : m < 2 ^ 52) (sign : Sign) :
    unpack Format.binary64 (pack Format.binary64 (.finite sign m (-1074) hpos)) =
      .finite sign m (-1074) hpos := by
  have hlog : m.log2 + 1 ≠ 53 := by
    have hlt := (Nat.log2_lt hpos.ne').mpr hm
    omega
  have hpack : pack Format.binary64 (.finite sign m (-1074) hpos) =
      packComponents Format.binary64 sign 0#11 (BitVec.ofNat 52 m) := by
    show (if 2 ^ 11 ≤ ((-1074 : ℤ) + (1023 : ℕ) + (52 : ℕ)).toNat + 1 then
        packedInfinity Format.binary64 sign
      else if m.log2 + 1 = 53 then packComponents Format.binary64 sign 1#11 (BitVec.ofNat 52 m)
      else packComponents Format.binary64 sign 0#11 (BitVec.ofNat 52 m)) = _
    rw [if_neg (by omega), if_neg hlog]
  have hmantissa : (BitVec.ofNat 52 m).toNat = m := by
    rw [BitVec.toNat_ofNat, Nat.mod_eq_of_lt hm]
  have hnonzero : BitVec.ofNat 52 m ≠ 0#52 := by
    intro heq
    have htoNat := congrArg BitVec.toNat heq
    rw [hmantissa] at htoNat
    exact hpos.ne' htoNat
  have hones : 0#11 ≠ -1#11 := by decide
  rw [hpack, unpack_packComponents]
  unfold ofFields
  rw [if_neg hones, if_pos rfl, dif_neg hnonzero, UnpackedFloat.finite.injEq]
  exact ⟨rfl, hmantissa, rfl⟩

/-- Parts that are held survive packing, as long as the exponent has room. -/
theorem unpack_pack_of_held (h : Held ⟨negative, m, e⟩) (hpos : 0 < m) (he : e ≤ 971)
    (sign : Sign) :
    unpack Format.binary64 (pack Format.binary64 (.finite sign m e hpos)) =
      .finite sign m e hpos := by
  by_cases hfull : 2 ^ 52 ≤ m
  · exact Full.unpack_pack ⟨hfull, h.small⟩ h.least he sign
  · obtain rfl : e = -1074 := h.full.resolve_right hfull
    exact unpack_pack_least hpos (Nat.lt_of_not_le hfull) sign

/-- An exponent beyond the last one makes an infinity. -/
theorem unpack_pack_beyond (hpos : 0 < m) (he : 971 < e) (sign : Sign) :
    unpack Format.binary64 (pack Format.binary64 (.finite sign m e hpos)) = .infinity sign := by
  have hpack : pack Format.binary64 (.finite sign m e hpos) =
      packedInfinity Format.binary64 sign := by
    show (if 2 ^ 11 ≤ (e + (1023 : ℕ) + (52 : ℕ)).toNat + 1 then _ else _) = _
    rw [if_pos (by omega)]
  rw [hpack]
  cases sign <;> rfl

/-! ## Places -/

/-- The parts by which a double is placed among the numbers. A zero has the least exponent, and an
infinity stands where the next double after the last one would. -/
def place? (x : Float) : Option Binary :=
  match x.toModel.unpack with
  | .zero sign => some ⟨sign == .negative, 0, -1074⟩
  | .finite sign mantissa exponent _ => some ⟨sign == .negative, mantissa, exponent⟩
  | .infinity sign => some ⟨sign == .negative, 2 ^ 52, 972⟩
  | .notANumber => none

variable {x : Float} {b : Binary}

theorem exists_place? (hx : x.toModel.unpack ≠ .notANumber) : ∃ b, place? x = some b := by
  unfold place?
  cases hu : x.toModel.unpack with
  | notANumber => exact absurd hu hx
  | zero | infinity | finite => exact ⟨_, rfl⟩

theorem held_of_place? (h : place? x = some b) : Held b := by
  unfold place? at h
  split at h
  · cases h
    exact ⟨Nat.two_pow_pos 53, Int.le_refl _, .inl rfl⟩
  · next hx =>
    cases h
    exact (held_of_unpack _ hx).1
  · cases h
    refine ⟨?_, ?_, .inr (Nat.le_refl _)⟩
    · show 2 ^ 52 < 2 ^ 53
      omega
    · show -1074 ≤ (972 : ℤ)
      omega
  · cases h

/-- A mantissa is smaller than one with the next exponent and the leading bit. -/
theorem Held.size_lt (h : Held b) {k : ℤ} (hk : b.exponent ≤ k) :
    b.size < 2 ^ 52 * (2 : ℚ) ^ (k + 1) := by
  have hsmall : (b.mantissa : ℚ) < 2 ^ 53 := by exact_mod_cast h.small
  have hpos : (0 : ℚ) < 2 ^ b.exponent := zpow_pos (by norm_num) _
  have hpow : (2 : ℚ) ^ b.exponent ≤ 2 ^ k := zpow_le_zpow_right₀ (by norm_num) hk
  calc b.size < 2 ^ 53 * (2 : ℚ) ^ b.exponent := mul_lt_mul_of_pos_right hsmall hpos
    _ ≤ 2 ^ 53 * (2 : ℚ) ^ k := mul_le_mul_of_nonneg_left hpow (by norm_num)
    _ = 2 ^ 52 * (2 : ℚ) ^ (k + 1) := by rw [zpow_add_one₀ (by norm_num)]; ring

/-- The place of the infinities, the sign aside: `2 ^ 1024`. -/
def limit : ℚ :=
  2 ^ 52 * (2 : ℚ) ^ (972 : ℤ)

theorem size_infinity (negative : Bool) : Binary.size ⟨negative, 2 ^ 52, 972⟩ = limit := by
  unfold Binary.size limit
  rw [Nat.cast_pow, Nat.cast_ofNat]

/-- No double has its place beyond that of the infinities, and the finite
ones are those before it. -/
theorem size_le_of_place? (h : place? x = some b) :
    b.size ≤ limit ∧ (x.isFinite = true ↔ b.size < limit) := by
  have hheld := held_of_place? h
  have hmodel : x.isFinite = x.toModel.unpack.isFinite := rfl
  unfold place? at h
  rw [hmodel]
  split at h
  · next hx =>
    cases h
    have hsize : _ < limit := hheld.size_lt (k := 971) (by simp)
    exact ⟨hsize.le, iff_of_true (by rw [hx]; rfl) hsize⟩
  · next hx =>
    cases h
    have hsize : _ < limit := hheld.size_lt (held_of_unpack false hx).2
    exact ⟨hsize.le, iff_of_true (by rw [hx]; rfl) hsize⟩
  · next hx =>
    cases h
    rw [hx, size_infinity]
    exact ⟨le_refl _, iff_of_false Bool.false_ne_true (lt_irrefl _)⟩
  · cases h

/-- The opposite of a double has the opposite parts. -/
theorem unpack_opposite (x : Float) : (-x).toModel.unpack = x.toModel.unpack.neg := by
  rw [unpack_neg]
  cases hx : x.toModel.unpack with
  | notANumber => rfl
  | zero sign => cases sign <;> rfl
  | infinity sign => cases sign <;> rfl
  | finite sign m e hm =>
    obtain ⟨hheld, he⟩ := held_of_unpack false hx
    exact unpack_pack_of_held hheld hm he _

/-- The opposite double stands at the opposite place. -/
theorem place?_neg (x : Float) :
    place? (-x) = (place? x).map fun b => ⟨!b.negative, b.mantissa, b.exponent⟩ := by
  have hsign : ∀ sign : Sign, (-sign == Sign.negative) = !(sign == .negative) := by
    intro sign
    cases sign <;> rfl
  unfold place?
  rw [unpack_opposite]
  cases x.toModel.unpack with
  | notANumber => rfl
  | zero sign | infinity sign | finite sign m e hm =>
    exact congrArg (fun negative => some (Binary.mk negative _ _)) (hsign sign)

/-! ## One place, one double -/

variable {y : Float} {c : Binary}

/-- The larger exponent belongs to the larger double. -/
theorem Held.size_lt_of_lt (hb : Held b) (hc : Held c) (h : b.exponent < c.exponent) :
    b.size < c.size := by
  have hleast := hb.least
  have hfull : (2 : ℚ) ^ 52 ≤ c.mantissa := by exact_mod_cast hc.full.resolve_left (by omega)
  have hpow : (0 : ℚ) ≤ 2 ^ c.exponent := zpow_nonneg (by norm_num) _
  have hsize := hb.size_lt (k := c.exponent - 1) (by omega)
  rw [Int.sub_add_cancel] at hsize
  exact hsize.trans_le (mul_le_mul_of_nonneg_right hfull hpow)

theorem Held.exponent_le (hb : Held b) (hc : Held c) (h : b.size = c.size) :
    c.exponent ≤ b.exponent := by
  by_contra hlt
  exact absurd h (hb.size_lt_of_lt hc (Int.lt_of_not_ge hlt)).ne

/-- Parts that are held and of one size are the same, the sign aside. -/
theorem Held.eq_of_size_eq (hb : Held b) (hc : Held c) (h : b.size = c.size) :
    b.mantissa = c.mantissa ∧ b.exponent = c.exponent := by
  have hexponent := le_antisymm (hc.exponent_le hb h.symm) (hb.exponent_le hc h)
  refine ⟨?_, hexponent⟩
  have hpow : (2 : ℚ) ^ c.exponent ≠ 0 := zpow_ne_zero _ (by norm_num)
  unfold Binary.size at h
  rw [hexponent] at h
  exact_mod_cast mul_right_cancel₀ hpow h

/-- Doubles with one value and not zero have one place. -/
theorem Held.eq_of_value_eq (hb : Held b) (hc : Held c) (hpos : 0 < b.mantissa)
    (h : b.value = c.value) : b = c := by
  have hsize : b.size = c.size := by rw [← b.abs_value, h, c.abs_value]
  obtain ⟨hmantissa, hexponent⟩ := hb.eq_of_size_eq hc hsize
  have hsizePos : 0 < b.size := mul_pos (by exact_mod_cast hpos) (zpow_pos (by norm_num) _)
  obtain ⟨negative, m, e⟩ := b
  obtain ⟨negative', m', e'⟩ := c
  unfold Binary.value at h
  rw [← hsize] at h
  dsimp only at *
  cases negative <;> cases negative'
  · rw [hmantissa, hexponent]
  · simp only [Bool.false_eq_true, if_false, if_true] at h
    linarith
  · simp only [Bool.false_eq_true, if_false, if_true] at h
    linarith
  · rw [hmantissa, hexponent]

/-- The sign of parts. -/
def signOf (negative : Bool) : Sign :=
  if negative then .negative else .positive

theorem signOf_beq (sign : Sign) : signOf (sign == .negative) = sign := by
  cases sign <;> rfl

/-- A mantissa that is read off a double is what was unpacked. -/
theorem unpack_of_parts (h : Binary.ofFloat? x = some b) (hpos : 0 < b.mantissa) :
    x.toModel.unpack = .finite (signOf b.negative) b.mantissa b.exponent hpos := by
  unfold Binary.ofFloat? at h
  cases hx : x.toModel.unpack with
  | notANumber | infinity =>
    rw [hx] at h
    cases h
  | zero =>
    rw [hx] at h
    obtain rfl := Option.some.inj h
    exact absurd hpos (Nat.lt_irrefl 0)
  | finite sign =>
    rw [hx] at h
    obtain rfl := Option.some.inj h
    rw [signOf_beq]

/-- The 64 bits of a place. The leading bit of a mantissa is left out, and an exponent that is not
zero stands for it. -/
def bitsAt (b : Binary) : BitVec 64 :=
  packComponents Format.binary64 (signOf b.negative)
    (if b.mantissa < 2 ^ 52 then 0#11 else BitVec.ofNat 11 (b.exponent + 1075).toNat)
    (BitVec.ofNat 52 b.mantissa)

/-- The three fields make up the 64 bits. -/
theorem packComponents_fields (bits : BitVec 64) :
    packComponents Format.binary64 (.ofBitVec (@unpackSign Format.binary64 bits))
      (@unpackExponent Format.binary64 bits) (@unpackMantissa Format.binary64 bits) = bits := by
  have hsign : ∀ v : BitVec 1, (Sign.ofBitVec v).toBitVec = v := by decide
  unfold packComponents
  rw [hsign]
  have hfirst : bits.extractLsb' 63 1 ++ bits.extractLsb' 52 11 = bits.extractLsb' 52 12 :=
    BitVec.extractLsb'_append_extractLsb'_eq_extractLsb' rfl
  have hall : bits.extractLsb' 52 12 ++ bits.extractLsb' 0 52 = bits.extractLsb' 0 64 :=
    BitVec.extractLsb'_append_extractLsb'_eq_extractLsb' rfl
  show (bits.extractLsb' 63 1 ++ bits.extractLsb' 52 11) ++ bits.extractLsb' 0 52 = bits
  rw [hfirst, hall]
  exact BitVec.extractLsb'_eq_self

theorem bitsAt_of_fields {exponent : BitVec 11} {mantissa : BitVec 52}
    (hx : x.toModel.unpack = ofFields sign exponent mantissa) (h : place? x = some b) :
    bitsAt b = packComponents Format.binary64 sign exponent mantissa := by
  have hsmall := mantissa.isLt
  unfold place? at h
  rw [hx] at h
  unfold ofFields at h
  by_cases hones : exponent = -1#11
  · rw [if_pos hones] at h
    by_cases hzero : mantissa = 0#52
    · rw [if_pos hzero] at h
      obtain rfl := Option.some.inj h
      rw [hones, hzero]
      cases sign <;> rfl
    · rw [if_neg hzero] at h
      cases h
  rw [if_neg hones] at h
  by_cases hleast : exponent = 0#11
  · rw [if_pos hleast] at h
    by_cases hzero : mantissa = 0#52
    · rw [dif_pos hzero] at h
      obtain rfl := Option.some.inj h
      rw [hleast, hzero]
      cases sign <;> rfl
    · rw [dif_neg hzero] at h
      obtain rfl := Option.some.inj h
      unfold bitsAt
      rw [signOf_beq, if_pos hsmall, hleast, BitVec.ofNat_toNat, BitVec.setWidth_eq]
  · rw [if_neg hleast] at h
    have hb := Option.some.inj h
    have hnegative : signOf b.negative = sign := by rw [← hb, signOf_beq]
    have hmantissa : b.mantissa = 2 ^ 52 + mantissa.toNat := by rw [← hb, toNat_one_append]
    have hexponent : b.exponent = exponent.toNat - 1075 := by rw [← hb]
    have hback : (b.exponent + 1075).toNat = exponent.toNat := by omega
    have hrest : BitVec.ofNat 52 (2 ^ 52 + mantissa.toNat) = mantissa := by
      apply BitVec.eq_of_toNat_eq
      rw [BitVec.toNat_ofNat]
      omega
    unfold bitsAt
    rw [hnegative, hmantissa, if_neg (by omega), hrest, hback, BitVec.ofNat_toNat,
      BitVec.setWidth_eq]

/-- A double that is a number is known by its place. -/
theorem place?_inj (hx : place? x = some b) (hy : place? y = some b) : x = y := by
  have hbits : ∀ {z : Float}, place? z = some b → z.toModel.toBits.toBitVec = bitsAt b := by
    intro z hz
    rw [bitsAt_of_fields (unpack_eq_ofFields z.toModel.toBits.toBitVec) hz]
    exact (packComponents_fields _).symm
  have heq := (hbits hx).trans (hbits hy).symm
  obtain ⟨⟨bits, hvalid⟩⟩ := x
  obtain ⟨⟨bits', hvalid'⟩⟩ := y
  obtain rfl : bits = bits' := UInt64.toBitVec_inj.mp heq
  rfl

end Double

end DocumentRules
