import DocumentRules.Evaluation.Operation
import DocumentRules.Proofs.Decimal.Digits

/-!
# Joined texts

A value has a text of its own, `Value.text`, and another one as an operand of `+`, which goes
through the primitive. For all but integers the two are the same. An integer is a double when it
reaches `+`, and is written with the digits of the double (`Value.operandText`): within 53 bits they
are the digits of the integer, beyond that they need not be. It is not a matter of being a double:
`2 ^ 60` is one and does not keep its digits, because `1152921504606847000` is read as the same
double and has fewer; that number keeps its own, though it is no double.

So `+` joins the texts of its operands exactly when no operand is an integer that a double writes
differently (`Value.add_joins_texts`), and whether a value can be cast to a text by adding the empty
text depends on the same.
-/

set_option autoImplicit false

namespace DocumentRules.Value

/-! ## The text of an operand -/

/-- The text of a value as an operand of `+`: that of the double for an integer, its
own for any other value. -/
def operandText : Value → String
  | .json (.num (.int n)) => Layout.plain.format (Float.ofInt n)
  | v => v.text

/-- As an operand of `+` the value is written with its own text: it is no integer whose double is
written with other digits. -/
def KeepsDigits (v : Value) : Prop :=
  ∀ n : ℤ, v = .json (.num (.int n)) → Layout.plain.format (Float.ofInt n) = toString n

theorem toText_primitive (v : Value) : v.primitive.toText = v.operandText := by
  cases v with
  | undefined => rfl
  | json v =>
    cases v with
    | bool b => cases b <;> rfl
    | num n => cases n <;> rfl
    | null | str text | arr items | obj fields => rfl

theorem operandText_eq_text_iff (v : Value) : v.operandText = v.text ↔ v.KeepsDigits := by
  unfold operandText
  split
  next n =>
    constructor
    · rintro h m hm
      cases hm
      exact h
    · intro h
      exact h n rfl
  next hother => exact iff_of_true rfl fun n hn => absurd hn (hother n)

/-- A value that reads as a text is no integer. -/
theorem keepsDigits_of_isText {v : Value} (h : v.primitive.isText = true) : v.KeepsDigits := by
  rintro n rfl
  cases h

/-- An integer of at most 53 bits keeps its digits. -/
theorem keepsDigits_int {n : ℤ} (hsafe : n.natAbs ≤ Number.safeInteger) :
    (json (.num (.int n))).KeepsDigits := by
  intro m hm
  cases hm
  exact Layout.plain_format_ofInt hsafe

/-! ## Sums of texts -/

variable {a b : Value}

theorem ofText_inj {s t : String} :
    (Except.ok (ofText s) : Except Fault Value) = .ok (ofText t) ↔ s = t := by
  constructor
  · intro h
    cases h
    rfl
  · rintro rfl
    rfl

theorem add_eq_operandText (h : a.primitive.isText = true ∨ b.primitive.isText = true) :
    a.add b = .ok (.ofText (a.operandText ++ b.operandText)) := by
  unfold add
  dsimp only
  rw [if_pos (Bool.or_eq_true_iff.mpr h), toText_primitive, toText_primitive]

/-- One operand is a text and keeps its digits, so the other one can be told from the sum. -/
theorem operandText_append_iff (h : a.primitive.isText = true ∨ b.primitive.isText = true) :
    a.operandText ++ b.operandText = a.text ++ b.text ↔ a.KeepsDigits ∧ b.KeepsDigits := by
  rcases h with ha | hb
  · have hkeeps := keepsDigits_of_isText ha
    rw [(operandText_eq_text_iff a).mpr hkeeps, String.append_right_inj, operandText_eq_text_iff]
    exact (and_iff_right hkeeps).symm
  · have hkeeps := keepsDigits_of_isText hb
    rw [(operandText_eq_text_iff b).mpr hkeeps, String.append_left_inj, operandText_eq_text_iff]
    exact (and_iff_left hkeeps).symm

/-- Adding the empty text is a cast to a text, for values that keep their
digits and for no others. -/
theorem add_empty_iff (v : Value) :
    (v.add (.ofText "") = CastTarget.text.apply v ↔ v.KeepsDigits) ∧
      ((ofText "").add v = CastTarget.text.apply v ↔ v.KeepsDigits) := by
  have hempty : (ofText "").operandText = "" := rfl
  have hcast : CastTarget.text.apply v = .ok (.ofText v.text) := rfl
  rw [add_eq_operandText (.inr rfl), add_eq_operandText (.inl rfl), hempty, hcast,
    String.append_empty, String.empty_append, ofText_inj, operandText_eq_text_iff]
  exact ⟨Iff.rfl, Iff.rfl⟩

/-- **What `+` joins**: if an operand reads as a text, the texts of the operands as operands. They
are the canonical texts exactly when both operands keep their digits, and then only is adding the
empty text a cast. Integers of at most 53 bits do, as does whatever is no integer. -/
theorem add_joins_texts (h : a.primitive.isText = true ∨ b.primitive.isText = true) :
    a.add b = .ok (.ofText (a.operandText ++ b.operandText)) ∧
      (a.add b = .ok (.ofText (a.text ++ b.text)) ↔ a.KeepsDigits ∧ b.KeepsDigits) ∧
      (∀ v : Value, (v.add (.ofText "") = CastTarget.text.apply v ↔ v.KeepsDigits) ∧
        ((ofText "").add v = CastTarget.text.apply v ↔ v.KeepsDigits)) ∧
      ∀ n : ℤ, n.natAbs ≤ Number.safeInteger → (json (.num (.int n))).KeepsDigits := by
  refine ⟨add_eq_operandText h, ?_, add_empty_iff, fun n => keepsDigits_int⟩
  rw [add_eq_operandText h, ofText_inj]
  exact operandText_append_iff h

/-- An array beside an integer of 53 bits. -/
theorem add_array_safe :
    ((json (.arr [.num (.int 1), .null])).primitive.isText = true ∨
        (json (.num (.int 9007199254740991))).primitive.isText = true) ∧
      (json (.arr [.num (.int 1), .null])).add (.json (.num (.int 9007199254740991))) =
        .ok (.ofText "1,9007199254740991") := by
  have h : (json (.arr [.num (.int 1), .null])).primitive.isText = true ∨
      (json (.num (.int 9007199254740991))).primitive.isText = true := .inl rfl
  have hjoins := add_joins_texts h
  have hkeeps := hjoins.2.2.2 9007199254740991 (by decide)
  exact ⟨h, hjoins.2.1.mpr ⟨keepsDigits_of_isText rfl, hkeeps⟩⟩

/-- An integer of 54 bits, which is no double: adding the empty text changes its last digit. -/
theorem add_empty_rounds :
    (json (.num (.int 9007199254740993))).add (.ofText "") = .ok (.ofText "9007199254740992") ∧
      CastTarget.text.apply (.json (.num (.int 9007199254740993))) =
        .ok (.ofText "9007199254740993") := by
  have hdouble : Layout.plain.format (Float.ofInt 9007199254740993) = "9007199254740992" := by
    decide +kernel
  refine ⟨?_, rfl⟩
  rw [add_eq_operandText (.inr rfl), ofText_inj]
  exact congrArg (· ++ "") hdouble

end DocumentRules.Value
