import DocumentRules.Decimal.Layout
import DocumentRules.Proofs.Decimal.Integers

/-!
# How a whole number is written as a double

The shortest decimal of a double need not be the number itself: `2 ^ 60` has nineteen digits and is
written with sixteen of them and three zeros. Below `2 ^ 53` this cannot happen. The rounding
interval of such a double ends less than half a unit away, so no other integer is in it, and a
decimal on a grid of whole numbers that is found there is the number (`Decimal.candidate_whole`).
The search meets such a grid before it comes to fractions, at the latest that of the units.

So an integer that is converted to a double and written as a text of its own reads as it did before
(`Layout.plain_format_ofInt`). Larger integers may not, and this is where the texts of values come
apart.
-/

set_option autoImplicit false

namespace DocumentRules

namespace Decimal

variable {tie : Tie} {n k j point : ℕ}

/-! ## Candidates -/

/-- Within two quarters of an integer, in steps that are at least four, lies only the integer. -/
theorem eq_of_near {unit : ℕ} (hunit : 4 ≤ unit) (hlow : unit * n - 2 ≤ unit * point)
    (hhigh : unit * point ≤ unit * n + 2) : point = n := by
  rcases Nat.lt_trichotomy point n with hlt | heq | hgt
  · have hstep : unit * (point + 1) ≤ unit * n := Nat.mul_le_mul_left _ hlt
    rw [Nat.mul_add] at hstep
    omega
  · exact heq
  · have hstep : unit * (n + 1) ≤ unit * point := Nat.mul_le_mul_left _ hgt
    rw [Nat.mul_add] at hstep
    omega

/-- The lower end of the rounding interval in quarters of the last place. -/
def lowerEnd (mantissa : ℕ) (exponent : ℤ) : ℕ :=
  if mantissa = binadeStart ∧ leastExponent < exponent then 4 * mantissa - 1 else 4 * mantissa - 2

theorem le_lowerEnd (mantissa : ℕ) (exponent : ℤ) :
    4 * mantissa - 2 ≤ lowerEnd mantissa exponent := by
  unfold lowerEnd
  split <;> omega

/-- A candidate lies in the rounding interval, and not at its ends if the mantissa is odd. -/
theorem candidate_inside {mantissa : ℕ} {exponent grid : ℤ}
    (h : candidate tie mantissa exponent grid = some point) :
    let scale := Nat.pow 2 (exponent - 2).toNat * Nat.pow 10 (-grid).toNat
    let unit := Nat.pow 2 (2 - exponent).toNat * Nat.pow 10 grid.toNat
    (lowerEnd mantissa exponent * scale ≤ point * unit ∧
        point * unit ≤ (4 * mantissa + 2) * scale) ∧
      (mantissa % 2 = 1 → lowerEnd mantissa exponent * scale < point * unit ∧
        point * unit < (4 * mantissa + 2) * scale) := by
  intro scale unit
  unfold candidate at h
  extract_lets value low high inside below above at h
  have hlow : low = lowerEnd mantissa exponent * scale := by
    unfold low lowerEnd
    split <;> rfl
  have hpoint : inside point = true := by
    clear_value inside
    cases hbelow : inside below <;> cases habove : inside above <;> grind
  unfold inside at hpoint
  rw [hlow] at hpoint
  split at hpoint
  · next heven =>
    rw [Bool.and_eq_true, decide_eq_true_eq, decide_eq_true_eq] at hpoint
    exact ⟨hpoint, fun hodd => by omega⟩
  · rw [Bool.and_eq_true, decide_eq_true_eq, decide_eq_true_eq] at hpoint
    exact ⟨⟨hpoint.1.le, hpoint.2.le⟩, fun _ => hpoint⟩

/-- A candidate is at most half of the last place away from the value. -/
theorem candidate_near {mantissa : ℕ} {exponent grid : ℤ}
    (h : candidate tie mantissa exponent grid = some point) :
    let scale := Nat.pow 2 (exponent - 2).toNat * Nat.pow 10 (-grid).toNat
    let unit := Nat.pow 2 (2 - exponent).toNat * Nat.pow 10 grid.toNat
    (4 * mantissa - 2) * scale ≤ point * unit ∧ point * unit ≤ (4 * mantissa + 2) * scale := by
  intro scale unit
  obtain ⟨⟨hlow, hhigh⟩, -⟩ := candidate_inside h
  exact ⟨(Nat.mul_le_mul_right _ (le_lowerEnd _ _)).trans hlow, hhigh⟩

/-- A grid that holds the value itself has a candidate. -/
theorem candidate_ne_none {mantissa : ℕ} {exponent grid : ℤ} (hpos : 0 < mantissa) (value : ℕ)
    (hvalue : value * (Nat.pow 2 (2 - exponent).toNat * Nat.pow 10 grid.toNat) =
      4 * mantissa * (Nat.pow 2 (exponent - 2).toNat * Nat.pow 10 (-grid).toNat)) :
    candidate tie mantissa exponent grid ≠ none := by
  unfold candidate
  extract_lets scale unit value' low high inside below above
  have hscale : 0 < scale := Nat.mul_pos (Nat.pow_pos (by decide)) (Nat.pow_pos (by decide))
  have hunit : 0 < unit := Nat.mul_pos (Nat.pow_pos (by decide)) (Nat.pow_pos (by decide))
  have hbelow : below = value := by
    show 4 * mantissa * scale / unit = value
    rw [← hvalue]
    exact Nat.mul_div_cancel _ hunit
  have hinside : inside below = true := by
    have hlow : low < value * unit := by
      rw [hvalue]
      unfold low
      split
      · exact Nat.mul_lt_mul_of_pos_right (by omega) hscale
      · exact Nat.mul_lt_mul_of_pos_right (by omega) hscale
    have hhigh : value * unit < high := by
      rw [hvalue]
      exact Nat.mul_lt_mul_of_pos_right (by omega) hscale
    rw [hbelow]
    unfold inside
    split
    · simpa using ⟨hlow.le, hhigh.le⟩
    · simpa using ⟨hlow, hhigh⟩
  rw [hinside]
  cases inside above
  · exact Option.some_ne_none _
  · dsimp only
    split <;> exact Option.some_ne_none _

/-- A candidate for an integer, on a grid of whole numbers, is the integer. -/
theorem candidate_whole (h : candidate tie (n * 2 ^ k) (-k) j = some point) :
    point * 10 ^ j = n := by
  have hnear := candidate_near h
  have hscale : Nat.pow 2 (-(k : ℤ) - 2).toNat * Nat.pow 10 (-(j : ℤ)).toNat = 1 := by
    rw [show (-(k : ℤ) - 2).toNat = 0 by omega, show (-(j : ℤ)).toNat = 0 by omega]
  have hunit : Nat.pow 2 (2 - -(k : ℤ)).toNat * Nat.pow 10 (j : ℤ).toNat = 4 * 2 ^ k * 10 ^ j := by
    rw [show (2 - -(k : ℤ)).toNat = 2 + k by omega, Int.toNat_natCast]
    show 2 ^ (2 + k) * 10 ^ j = _
    rw [pow_add]
    rfl
  have hvalue : 4 * (n * 2 ^ k) = 4 * 2 ^ k * n := by ring
  have hpoint : point * (4 * 2 ^ k * 10 ^ j) = 4 * 2 ^ k * (point * 10 ^ j) := by ring
  simp only [hscale, hunit, mul_one, hvalue, hpoint] at hnear
  have hpow := Nat.two_pow_pos k
  exact eq_of_near (by omega) hnear.1 hnear.2

theorem candidate_units (hpos : 0 < n) : candidate tie (n * 2 ^ k) (-k) 0 ≠ none := by
  refine candidate_ne_none (Nat.mul_pos hpos (Nat.two_pow_pos k)) n ?_
  rw [show (2 - -(k : ℤ)).toNat = 2 + k by omega, show (-(k : ℤ) - 2).toNat = 0 by omega]
  show n * (2 ^ (2 + k) * 1) = 4 * (n * 2 ^ k) * 1
  ring

/-! ## The search -/

/-- The decimal is the integer `n`, and has no digits behind the point. -/
def IsWhole (d : Decimal) (n : ℕ) : Prop :=
  ∃ j : ℕ, d.exponent = j ∧ d.coefficient * 10 ^ j = n

theorem finest_neg : finest (-(k : ℤ)) = -k := by
  unfold finest
  omega

/-- A walk that starts at the units or above them finds the integer. -/
theorem search_whole (hpos : 0 < n) {steps : ℕ} (hsteps : k ≤ steps) :
    IsWhole (search tie (n * 2 ^ k) (-k) steps) n := by
  induction steps with
  | zero =>
    obtain rfl : k = 0 := by omega
    exact ⟨0, rfl, by simp [search, exact]⟩
  | succ steps ih =>
    obtain ⟨j, hj⟩ : ∃ j : ℕ, finest (-(k : ℤ)) + (steps + 1 : ℕ) = j :=
      ⟨steps + 1 - k, by rw [finest_neg]; omega⟩
    unfold search
    rw [hj]
    dsimp only
    split
    next point hpoint => exact ⟨j, rfl, candidate_whole hpoint⟩
    next hnone =>
      refine ih ?_
      -- the units always have a candidate, so the walk has not come to them yet
      by_contra hlast
      obtain rfl : j = 0 := by rw [finest_neg] at hj; omega
      exact candidate_units hpos hnone

theorem coarsest_pos (hpos : 0 < n) : 0 < coarsest (n * 2 ^ k) (-k) := by
  unfold coarsest
  rw [Double.log2_shifted hpos]
  omega

theorem shortest_whole (hpos : 0 < n) : IsWhole (shortest tie (n * 2 ^ k) (-k)) n := by
  unfold shortest
  rw [if_neg (Nat.mul_pos hpos (Nat.two_pow_pos k)).ne']
  refine search_whole hpos ?_
  have hcoarse := coarsest_pos (k := k) hpos
  rw [finest_neg]
  omega

/-! ## The digits -/

theorem toDigits_mul_pow {p : ℕ} (hpos : 0 < p) (j : ℕ) :
    Nat.toDigits 10 (p * 10 ^ j) = Nat.toDigits 10 p ++ List.replicate j '0' := by
  induction j with
  | zero => simp
  | succ j ih =>
    have hstep := Nat.toDigits_append_toDigits (b := 10) (n := p * 10 ^ j) (d := 0) (by decide)
      (Nat.mul_pos hpos (Nat.pow_pos (by decide))) (by decide)
    rw [show p * 10 ^ (j + 1) = 10 * (p * 10 ^ j) + 0 by ring, ← hstep, ih, List.replicate_succ',
      List.append_assoc]
    rfl

end Decimal

namespace Layout

open Decimal (IsWhole shortest)

variable {n k : ℕ}

/-- A form that is positional from the units to the sixteenth place writes integers of up to sixteen
digits with all of them. -/
theorem magnitude_whole {layout : Layout} (hfrom : layout.positionalFrom ≤ 0)
    (hbelow : 16 ≤ layout.positionalBelow) {d : Decimal} (hd : IsWhole d n) (hpos : 0 < n)
    (hsmall : n < 10 ^ 16) :
    layout.magnitude d = Nat.toDigits 10 n ++ (if layout.pointed then ['.', '0'] else []) := by
  obtain ⟨j, hexponent, hn⟩ := hd
  have hcoefficient : 0 < d.coefficient := Nat.pos_of_mul_pos_right (by rw [hn]; exact hpos)
  have hdigits : Nat.toDigits 10 n = Nat.toDigits 10 d.coefficient ++ List.replicate j '0' := by
    rw [← hn, Decimal.toDigits_mul_pow hcoefficient]
  have hlength : (Nat.toDigits 10 d.coefficient).length + j ≤ 16 := by
    have hle := (Nat.length_toDigits_le_iff (b := 10) (by decide) (by decide)).mpr hsmall
    rwa [hdigits, List.length_append, List.length_replicate] at hle
  have hsome := Nat.length_toDigits_pos (b := 10) (n := d.coefficient)
  unfold magnitude positional
  dsimp only
  rw [hexponent, if_pos (by omega), if_pos (by omega), hdigits, Int.toNat_natCast]

theorem plain_magnitude_shortest (hsmall : n < 2 ^ 53) :
    plain.magnitude (shortest plain.tie (n * 2 ^ k) (-k)) = Nat.toDigits 10 n := by
  rcases Nat.eq_zero_or_pos n with rfl | hpos
  · unfold shortest
    rw [if_pos (zero_mul _)]
    rfl
  · rw [magnitude_whole (by decide) (by decide) (Decimal.shortest_whole hpos) hpos
      (hsmall.trans (by decide))]
    exact List.append_nil _

/-- **An integer of at most 53 bits is written the same as a double**: as a text of its own, the
double shows the digits of the integer and its sign. -/
theorem plain_format_ofInt {n : ℤ} (hsafe : n.natAbs ≤ Number.safeInteger) :
    plain.format (Float.ofInt n) = toString n := by
  obtain ⟨k, -, hparts⟩ := Binary.ofFloat?_ofInt hsafe
  unfold format render
  rw [hparts]
  dsimp only
  rw [plain_magnitude_shortest (Number.lt_of_safe hsafe)]
  cases n with
  | ofNat n => rfl
  | negSucc n =>
    have hmantissa : (Int.negSucc n).natAbs * 2 ^ k ≠ 0 :=
      (Nat.mul_pos (Nat.succ_pos n) (Nat.two_pow_pos k)).ne'
    rw [decide_eq_true (Int.negSucc_lt_zero n), bne_iff_ne.mpr hmantissa]
    show String.ofList ('-' :: Nat.toDigits 10 (n + 1)) = "-" ++ Nat.repr (n + 1)
    apply String.toList_injective
    simp [Nat.repr]

end Layout

end DocumentRules
