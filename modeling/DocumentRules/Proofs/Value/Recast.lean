import DocumentRules.Evaluation.Operation
import DocumentRules.Proofs.Decimal.Characters
import DocumentRules.Proofs.Decimal.Printed

/-!
# Numbers that are cast to a text and back

A number that is cast to a text and then to a number becomes what it becomes when it is cast to a
number at once (`Number.text_reads_back`). Doubles are written so that they are read as before. An
integer is written with all its digits, and reading them rounds to the nearest double, which is the
double that the integer is taken for. Negative zero loses its sign in the text, and a cast to a
number makes the integer zero of both.

A document holds integers of 64 bits only (`Number.InDocument`). An integer with more than three
hundred digits would be beyond the doubles, and neither of the casts would give a number.
-/

set_option autoImplicit false

namespace DocumentRules

namespace Number

/-- A number that a document can hold: an integer of 64 bits, or any finite double. -/
def InDocument : Number → Prop
  | .int n => Json.Reader.fitsInteger n = true
  | .double _ _ => True

/-- What is read off a document can be held by one. -/
theorem inDocument_of_numberOf? {negative : Bool} {whole : List Char}
    {fraction : Option (List Char)} {exponent : Option ℤ} {n : Number}
    (h : Json.Reader.numberOf? negative whole fraction exponent = some n) : n.InDocument := by
  have hdouble : ∀ {x : Float}, ofFloat? x = some n → n.InDocument := by
    intro x hx
    unfold ofFloat? at hx
    split at hx
    · obtain rfl := Option.some.inj hx
      exact trivial
    · cases hx
  unfold Json.Reader.numberOf? at h
  dsimp only at h
  generalize (if negative = true then -(Numeral.value whole : ℤ)
    else Numeral.value whole) = size at h
  split at h
  · split at h
    · next hfits =>
      obtain rfl := Option.some.inj h
      exact (Bool.and_eq_true_iff.mp hfits).1
    · exact hdouble h
  · exact hdouble h

end Number

/-! ## Integers -/

theorem Literal.numeral_toDigits (negative : Bool) (n : ℕ) :
    Literal.numeral ⟨negative, Nat.toDigits 10 n, [], false, []⟩ = ⟨negative, ⟨n, 0⟩⟩ := by
  unfold numeral
  dsimp only
  rw [List.append_nil, value_toDigits]
  rfl

theorem Literal.spelledAs_toDigits {sign : List Char} {negative : Bool}
    (hsign : SignText sign negative) (n : ℕ) :
    Literal.SpelledAs Char.isDigit ⟨negative, Nat.toDigits 10 n, [], false, []⟩
      (sign ++ Nat.toDigits 10 n) :=
  ⟨sign, Nat.toDigits 10 n, [], (List.append_nil _).symm, hsign,
    .plain Nat.toDigits_ne_nil (run_toDigits n), .absent⟩

/-- The text of an integer is a literal, and the double that it is read as is
that of the integer. -/
theorem exists_literal_int (n : ℤ) :
    ∃ l : Literal, l.IsTextOf (toString n) ∧ l.value = n ∧ l.numeral.toFloat = Float.ofInt n := by
  cases n with
  | ofNat n =>
    have hspelled := (Literal.spelledAs_toDigits .absent n).isTextOf
    refine ⟨_, hspelled, ?_, ?_⟩
    · rw [← Literal.number_numeral, Literal.numeral_toDigits]
      simp [Numeral.number, Decimal.value]
    · rw [Literal.numeral_toDigits]
      rfl
  | negSucc n =>
    have htext : toString (Int.negSucc n) = String.ofList (['-'] ++ Nat.toDigits 10 (n + 1)) := by
      apply String.toList_injective
      rw [String.toList_ofList, toList_toString_int, if_pos (Int.negSucc_lt_zero n)]
      rfl
    refine ⟨_, htext ▸ (Literal.spelledAs_toDigits .minus (n + 1)).isTextOf, ?_, ?_⟩
    · rw [← Literal.number_numeral, Literal.numeral_toDigits]
      simp [Numeral.number, Decimal.value, Int.negSucc_eq]
    · rw [Literal.numeral_toDigits]
      rfl

/-- The nearest double of an integer of 64 bits is finite. -/
theorem isFinite_ofInt {n : ℤ} (h : Json.Reader.fitsInteger n = true) :
    (Float.ofInt n).isFinite = true := by
  obtain ⟨l, -, hvalue, hfloat⟩ := exists_literal_int n
  have hnearest := l.nearest_toFloat
  rw [hvalue, hfloat] at hnearest
  obtain ⟨hlow, hhigh⟩ := Bool.and_eq_true_iff.mp h
  have hlow' : -(2 ^ 63 : ℤ) ≤ n := of_decide_eq_true hlow
  have hhigh' : n < 2 ^ 64 := of_decide_eq_true hhigh
  have hsize : |(n : ℚ)| ≤ 2 ^ 64 := by
    rw [abs_le]
    constructor
    · have hcast : (-(2 ^ 63) : ℚ) ≤ n := by exact_mod_cast hlow'
      linarith
    · have hcast : (n : ℚ) < 2 ^ 64 := by exact_mod_cast hhigh'
      exact hcast.le
  have hlimit : (2 : ℚ) ^ 52 * 2 ^ (14 : ℤ) ≤ Double.limit :=
    mul_le_mul_of_nonneg_left (zpow_le_zpow_right₀ (by norm_num) (by norm_num)) (by norm_num)
  refine hnearest.isFinite (lt_of_lt_of_le ?_ hlimit)
  norm_num at hsize ⊢
  linarith

theorem numericText?_int {n : ℤ} (h : Json.Reader.fitsInteger n = true) :
    numericText? (toString n) = some (Float.ofInt n) := by
  obtain ⟨l, htext, hvalue, hfloat⟩ := exists_literal_int n
  have hnearest := l.nearest_toFloat
  rw [hfloat] at hnearest
  rw [numericText?_of_isTextOf htext hnearest (isFinite_ofInt h), hfloat]

/-! ## Casts -/

theorem Json.ofFloat_zero {x : Float} (h : (x == 0) = true) : Json.ofFloat x = Json.ofFloat 0 := by
  rcases Double.eq_or_zeros_of_beq h with rfl | ⟨rfl, -⟩ | ⟨rfl, -⟩
  · rfl
  · rfl
  · rfl

theorem CastTarget.number_apply {value : Value} {x : Float} (h : value.numeric? = some x) :
    CastTarget.number.apply value = .ok (.json (Json.ofFloat x)) := by
  unfold CastTarget.apply
  dsimp only
  rw [h]

namespace Number

theorem isFinite_toFloat {n : Number} (h : n.InDocument) : n.toFloat.isFinite = true := by
  cases n with
  | int n => exact isFinite_ofInt h
  | double x finite => exact finite

/-- The text of a number is read as a double that makes the same number. -/
theorem exists_numericText?_text {n : Number} (h : n.InDocument) :
    ∃ x, numericText? n.text = some x ∧ Json.ofFloat x = Json.ofFloat n.toFloat := by
  cases n with
  | int n => exact ⟨Float.ofInt n, numericText?_int h, rfl⟩
  | double x finite =>
    refine ⟨_, Layout.numericText?_plain_format finite, ?_⟩
    split
    · next hzero => exact (Json.ofFloat_zero hzero).symm
    · rfl

/-- **Numbers as texts of their own are read as before**, and so a cast to a text and back to a
number does what a cast to a number does. -/
theorem text_reads_back :
    (∀ x : Float, x.isFinite = true →
      numericText? (Layout.plain.format x) = some (if x == 0 then 0 else x)) ∧
    ∀ n : Number, n.InDocument →
      ∃ v, CastTarget.number.apply (.json (.num n)) = .ok v ∧
        (CastTarget.text.apply (.json (.num n)) >>= CastTarget.number.apply) = .ok v := by
  refine ⟨fun x finite => Layout.numericText?_plain_format finite, fun n h => ?_⟩
  obtain ⟨x, hread, hsame⟩ := exists_numericText?_text h
  have hdirect : (Value.json (.num n)).numeric? = some n.toFloat := if_pos (isFinite_toFloat h)
  have htext : (Value.ofText n.text).numeric? = some x := hread
  refine ⟨.json (Json.ofFloat n.toFloat), CastTarget.number_apply hdirect, ?_⟩
  show CastTarget.number.apply (.ofText n.text) = _
  rw [CastTarget.number_apply htext, hsame]

/-- The least double, and an integer that is no double. -/
theorem least_reads_back :
    (Float.isFinite 5e-324 = true ∧ Layout.plain.format 5e-324 = "5e-324" ∧
      numericText? (Layout.plain.format 5e-324) =
        some (if (5e-324 : Float) == 0 then 0 else 5e-324)) ∧
    InDocument (.int 9007199254740993) ∧
      ∃ v, CastTarget.number.apply (.json (.num (.int 9007199254740993))) = .ok v ∧
        (CastTarget.text.apply (.json (.num (.int 9007199254740993))) >>=
          CastTarget.number.apply) = .ok v := by
  have hfinite : Float.isFinite 5e-324 = true := by decide +kernel
  have hdocument : InDocument (.int 9007199254740993) := by
    show Json.Reader.fitsInteger 9007199254740993 = true
    decide
  exact ⟨⟨hfinite, by decide +kernel, text_reads_back.1 5e-324 hfinite⟩, hdocument,
    text_reads_back.2 _ hdocument⟩

end Number

end DocumentRules
