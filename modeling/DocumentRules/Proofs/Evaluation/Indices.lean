import DocumentRules.Evaluation.Slice
import DocumentRules.Proofs.Decimal.Arithmetic
import DocumentRules.Proofs.Result

/-!
# Indices

Where an index points is said here by its value alone (`clampedIndex`): counted from the end where
its whole part is negative, and moved to the nearer end where it lies outside. That is in
integers, while `position` calculates with doubles. The two agree (`position_eq`) as long as the
array has fewer than `2 ^ 53` items. An index that is a large integer may be rounded to a double,
and the sum of an index with the length may be rounded once more; but then the number is so far
beyond the array that it comes to the same end (`AlikeBeyond`, `exists_sum`). The count of a
splice is clamped in the same way.

From this come the bounds that a slice and a splice rely on. They are those of the positions and
counts as they are computed, for operands of every sort.
-/

set_option autoImplicit false

namespace DocumentRules

/-! ## By value -/

/-- Where an index points in an array of a given length. -/
def clampedIndex (length : ℕ) (index : ℚ) : ℤ :=
  if wholePart index < 0 then max (length + wholePart index) 0 else min (wholePart index) length

/-- How many items are taken out behind a position: the count asked for, or else all that there
are. -/
def takenOut (length : ℕ) (start : ℤ) : Option ℚ → ℤ
  | some count => max 0 (min (wholePart count) (length - start))
  | none => length - start

theorem clampedIndex_bounds (length : ℕ) (index : ℚ) :
    0 ≤ clampedIndex length index ∧ clampedIndex length index ≤ length := by
  unfold clampedIndex
  split <;> omega

theorem takenOut_bounds {length : ℕ} {start : ℤ} (h : start ≤ length) (count : Option ℚ) :
    0 ≤ takenOut length start count ∧ start + takenOut length start count ≤ length := by
  cases count with
  | none =>
    simp only [takenOut]
    omega
  | some count =>
    simp only [takenOut]
    omega

/-! ## In doubles -/

section

open Double

variable {length : ℕ} {index : Float} {w : ℤ}

/-- Two integers that are the same one, or that both lie beyond `2 ^ 53 - 1` on one side of zero. Up
to there every integer is a double. -/
def AlikeBeyond (w k : ℤ) : Prop :=
  w = k ∨ 2 ^ 53 - 1 ≤ w ∧ 2 ^ 53 - 1 ≤ k ∨ w ≤ -(2 ^ 53 - 1) ∧ k ≤ -(2 ^ 53 - 1)

theorem le_wholePart {n : ℤ} {q : ℚ} (hn : 0 ≤ n) (h : n ≤ q) : n ≤ wholePart q := by
  have hq : (0 : ℚ) ≤ q := le_trans (by exact_mod_cast hn) h
  rw [wholePart, if_neg (not_lt.mpr hq)]
  exact Int.le_floor.mpr h

theorem wholePart_le {n : ℤ} {q : ℚ} (hn : 0 ≤ n) (h : q ≤ -n) : wholePart q ≤ -n := by
  have hopposite := le_wholePart hn (q := -q) (by linarith)
  rw [wholePart_neg] at hopposite
  omega

/-- An integer that is rounded to a double stays the same, or stays beyond `2 ^ 53`. -/
theorem alikeBeyond_ofInt {k : ℤ} {q : ℚ} (h : HasValue (Float.ofInt k) q) :
    AlikeBeyond (wholePart q) k := by
  by_cases hsmall : k.natAbs < 2 ^ 53
  · obtain rfl := h.value_eq (hasValue_ofInt hsmall)
    exact .inl (wholePart_intCast k)
  · have hlast := hasValue_ofNat (n := 2 ^ 53 - 1) (by norm_num)
    have hnearest := nearest_ofInt k
    have hcast : ((2 ^ 53 - 1 : ℕ) : ℚ) = ((2 ^ 53 - 1 : ℤ) : ℚ) := by norm_num
    rw [hcast] at hlast
    rcases le_total 0 k with hpos | hneg
    · have hle : (2 ^ 53 - 1 : ℤ) ≤ k := by omega
      refine .inr (.inl ⟨le_wholePart (by norm_num) ?_, hle⟩)
      exact hnearest.le_of_le h hlast (by exact_mod_cast hle)
    · have hle : k ≤ -(2 ^ 53 - 1 : ℤ) := by omega
      refine .inr (.inr ⟨wholePart_le (by norm_num) ?_, hle⟩)
      exact hnearest.ge_of_ge h hlast.neg (by exact_mod_cast hle)

/-- An index is cut off to a double, which is its whole part unless that is beyond `2 ^ 53`. -/
theorem exists_trunc (x : Number) :
    ∃ w : ℤ, HasValue (trunc x.toFloat) w ∧ AlikeBeyond w (wholePart x.value) := by
  cases x with
  | int k =>
    obtain ⟨b, hb, -⟩ := nearest_ofInt k
    have hvalue := hasValue_of_place? hb
    refine ⟨wholePart b.value, hvalue.trunc, ?_⟩
    show AlikeBeyond _ (wholePart k)
    rw [wholePart_intCast]
    exact alikeBeyond_ofInt hvalue
  | double x finite => exact ⟨_, (hasValue_of_isFinite finite).trunc, .inl rfl⟩

/-- The length of an array and an index that counts from its end are added without a loss, if the
sum is a position, and to a number below zero otherwise. -/
theorem exists_sum (hlength : length < 2 ^ 53) (h : HasValue index w) (hneg : w < 0) :
    ∃ v : ℚ, HasValue (Float.ofNat length + index) v ∧
      (0 ≤ length + w → v = (length + w : ℤ)) ∧ (length + w ≤ 0 → v ≤ 0) := by
  have hlen := hasValue_ofNat hlength
  have hfinite := isFinite_ofNat hlength
  have hzero : HasValue 0 0 := .zero .positive
  by_cases hindex : index.isFinite = true
  · have hnearest := nearest_add hlen h hfinite hindex
    obtain ⟨b, hb, -⟩ := id hnearest
    have hsum := hasValue_of_place? hb
    refine ⟨b.value, hsum, fun hpos => ?_, fun hnonpos => ?_⟩
    · obtain ⟨k, hk⟩ := Int.eq_ofNat_of_zero_le hpos
      have hexact : HasValue (Float.ofNat k) ((length : ℚ) + w) := by
        have hnat := hasValue_ofNat (n := k) (by omega)
        have hcast : ((k : ℕ) : ℚ) = length + w := by exact_mod_cast hk.symm
        rwa [hcast] at hnat
      have heq := hsum.value_eq (hnearest.hasValue hexact)
      rw [heq]
      push_cast
      rfl
    · exact hnearest.ge_of_ge hsum hzero (by exact_mod_cast hnonpos)
  · have hsum := hlen.add_infinite h hfinite (Bool.eq_false_iff.mpr hindex)
    have hfar : (w : ℚ) ≤ -limit := by
      by_contra hlt
      refine hindex (h.isFinite (abs_lt.mpr ⟨not_le.mp hlt, ?_⟩))
      exact (by exact_mod_cast hneg : (w : ℚ) < 0).trans limit_pos
    have hbelow : (length : ℚ) + w < 0 := by
      have hlimit := two_pow_lt_limit (k := 53) (by omega)
      have hlengthRat : (length : ℚ) < 2 ^ 53 := by exact_mod_cast hlength
      linarith
    have hbelowInt : length + w < 0 := by exact_mod_cast hbelow
    exact ⟨w, hsum, fun hpos => by omega, fun _ => by exact_mod_cast hneg.le⟩

/-- The position of an index is found without a loss. -/
theorem position_eq_of_trunc (hlength : length < 2 ^ 53) (h : HasValue (trunc index) w) :
    (position length index : ℤ) = if w < 0 then max (length + w) 0 else min w length := by
  have hzero : HasValue 0 0 := .zero .positive
  have hlen := hasValue_ofNat hlength
  have hnegative : trunc index < 0 ↔ w < 0 := by
    rw [h.lt_iff hzero]
    exact_mod_cast Iff.rfl
  unfold position
  dsimp only
  by_cases hw : w < 0
  · rw [if_pos (hnegative.mpr hw), if_pos hw]
    obtain ⟨v, hsum, hexact, hbelow⟩ := exists_sum hlength h hw
    show ((if Float.ofNat length + trunc index ≤ 0 then 0
      else Float.ofNat length + trunc index).toUInt64.toNat : ℤ) = _
    split
    · next hle =>
      have hv : v ≤ 0 := (hsum.le_iff hzero).mp hle
      have hnonpos : length + w ≤ 0 := by
        by_contra hlt
        rw [hexact (not_le.mp hlt).le] at hv
        exact hlt (by exact_mod_cast hv)
      rw [max_eq_right hnonpos]
      exact congrArg Nat.cast (HasValue.toUInt64 (n := 0) (.zero .positive) (by omega))
    · next hgt =>
      have hv : 0 < v := not_le.mp ((hsum.le_iff hzero).not.mp hgt)
      have hpos : 0 < length + w := not_le.mp fun hle => absurd (hbelow hle) (not_le.mpr hv)
      obtain ⟨k, hk⟩ := Int.eq_ofNat_of_zero_le hpos.le
      rw [hexact hpos.le, hk, Int.cast_natCast] at hsum
      rw [max_eq_left hpos.le, hk, hsum.toUInt64 (by omega)]
  · rw [if_neg (hnegative.not.mpr hw), if_neg hw]
    show ((if trunc index ≤ Float.ofNat length then trunc index
      else Float.ofNat length).toUInt64.toNat : ℤ) = _
    have hle : trunc index ≤ Float.ofNat length ↔ w ≤ length := by
      rw [h.le_iff hlen]
      exact_mod_cast Iff.rfl
    obtain ⟨k, rfl⟩ := Int.eq_ofNat_of_zero_le (not_lt.mp hw)
    by_cases hin : (k : ℤ) ≤ length
    · rw [if_pos (hle.mpr hin), min_eq_left hin, HasValue.toUInt64 h (by omega)]
    · rw [if_neg (hle.not.mpr hin), min_eq_right (not_le.mp hin).le, hlen.toUInt64 (by omega)]

/-- **An index points where its value does.** -/
theorem position_eq (hlength : length < 2 ^ 53) (x : Number) :
    (position length x.toFloat : ℤ) = clampedIndex length x.value := by
  obtain ⟨w, htrunc, halike⟩ := exists_trunc x
  rw [position_eq_of_trunc hlength htrunc]
  unfold clampedIndex
  unfold AlikeBeyond at halike
  generalize wholePart x.value = k at halike
  split <;> split <;> omega

theorem position_le (hlength : length < 2 ^ 53) (x : Number) :
    position length x.toFloat ≤ length := by
  have hbounds := clampedIndex_bounds length x.value
  rw [← position_eq hlength] at hbounds
  exact_mod_cast hbounds.2

/-- A count is clamped without a loss. -/
theorem clamp?_count (hlength : length < 2 ^ 53) (h : HasValue index w) :
    ∃ kept, clamp? 0 (Float.ofNat length) index = some kept ∧
      (kept.toUInt64.toNat : ℤ) = max 0 (min w length) := by
  have hzero : HasValue 0 0 := .zero .positive
  have hlen := hasValue_ofNat hlength
  have hrange : (0 : Float) ≤ Float.ofNat length :=
    (hzero.le_iff hlen).mpr (Nat.cast_nonneg length)
  have hbelow : index < 0 ↔ w < 0 := by
    rw [h.lt_iff hzero]
    exact_mod_cast Iff.rfl
  have habove : Float.ofNat length < index ↔ (length : ℤ) < w := by
    rw [hlen.lt_iff h]
    exact_mod_cast Iff.rfl
  refine ⟨_, if_pos hrange, ?_⟩
  by_cases hw : w < 0
  · rw [if_pos (hbelow.mpr hw)]
    have hcount : (0 : Float).toUInt64.toNat = 0 :=
      HasValue.toUInt64 (n := 0) (.zero .positive) (by omega)
    rw [hcount]
    omega
  · rw [if_neg (hbelow.not.mpr hw)]
    obtain ⟨k, rfl⟩ := Int.eq_ofNat_of_zero_le (not_lt.mp hw)
    by_cases hin : (length : ℤ) < k
    · rw [if_pos (habove.mpr hin), hlen.toUInt64 (by omega)]
      omega
    · rw [if_neg (habove.not.mpr hin), HasValue.toUInt64 h (by omega)]
      omega

end

/-! ## Fields -/

variable {length start : ℕ}

theorem positionField_le (hlength : length < 2 ^ 53) {operator field : String} {index : Json}
    {p : ℕ} (h : positionField operator field length index = .ok p) : p ≤ length := by
  cases index with
  | num x =>
    obtain rfl := Except.ok.inj h
    exact position_le hlength x
  | _ => cases h

/-- Where a slice begins and ends lies in the array, whatever its fields hold. -/
theorem sliceBounds_le (hlength : length < 2 ^ 53) {first last : Option Json} {bounds : ℕ × ℕ}
    (h : sliceBounds length first last = .ok bounds) :
    bounds.1 ≤ length ∧ bounds.2 ≤ length := by
  cases first with
  | none =>
    cases last with
    | none =>
      obtain rfl := Except.ok.inj h
      exact ⟨Nat.zero_le _, Nat.le_refl _⟩
    | some last =>
      obtain ⟨p, hp, hbounds⟩ := bind_eq_ok.mp h
      obtain rfl := Except.ok.inj hbounds
      exact ⟨positionField_le hlength hp, Nat.le_refl _⟩
  | some first =>
    cases last with
    | none =>
      obtain ⟨p, hp, hbounds⟩ := bind_eq_ok.mp h
      obtain rfl := Except.ok.inj hbounds
      exact ⟨positionField_le hlength hp, Nat.le_refl _⟩
    | some last =>
      obtain ⟨p, hp, hrest⟩ := bind_eq_ok.mp h
      obtain ⟨q, hq, hbounds⟩ := bind_eq_ok.mp hrest
      obtain rfl := Except.ok.inj hbounds
      exact ⟨positionField_le hlength hp, positionField_le hlength hq⟩

/-- The count of a splice, when it is a number or missing. -/
theorem exists_deletedCount (hlength : length < 2 ^ 53) (h : start ≤ length)
    (count : Option Number) :
    ∃ taken, deletedCount length start (count.map .num) = .ok (some taken) ∧
      (taken : ℤ) = takenOut length start (count.map Number.value) := by
  have hrest : difference? length start = some (length - start) := if_pos h
  cases count with
  | none => exact ⟨length - start, congrArg Except.ok hrest, by rw [Nat.cast_sub h]; rfl⟩
  | some count =>
    obtain ⟨w, htrunc, halike⟩ := exists_trunc count
    have hfollow : length - start < 2 ^ 53 := by omega
    obtain ⟨kept, hclamp, hkept⟩ := clamp?_count hfollow htrunc
    refine ⟨kept.toUInt64.toNat, ?_, ?_⟩
    · show Except.ok ((difference? length start).bind _) = _
      rw [hrest, Option.bind_some, hclamp]
      rfl
    · rw [hkept, Nat.cast_sub h]
      unfold AlikeBeyond at halike
      show _ = max 0 (min (wholePart count.value) (length - start))
      omega

/-- No more is taken out than follows, and the difference is never below zero. -/
theorem deletedCount_le (hlength : length < 2 ^ 53) (h : start ≤ length) {count : Option Json}
    {taken : Option ℕ} (htaken : deletedCount length start count = .ok taken) :
    ∃ n, taken = some n ∧ start + n ≤ length := by
  have hnumber : ∀ count : Option Number,
      deletedCount length start (count.map .num) = .ok taken →
        ∃ n, taken = some n ∧ start + n ≤ length := by
    intro count hcount
    obtain ⟨n, hn, hvalue⟩ := exists_deletedCount hlength h count
    obtain rfl := Except.ok.inj (hcount.symm.trans hn)
    have hbounds := takenOut_bounds (by exact_mod_cast h : (start : ℤ) ≤ length)
      (count.map Number.value)
    exact ⟨n, rfl, by omega⟩
  cases count with
  | none => exact hnumber none htaken
  | some count =>
    cases count with
    | num x => exact hnumber (some x) htaken
    | _ => cases htaken

end DocumentRules
