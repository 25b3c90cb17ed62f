import DocumentRules.Proofs.Decimal.Reading
import Mathlib.Data.List.TakeWhile

/-!
# Literals

A literal is a sign, digits with a point among them, and an exponent, and all but the digits may be
missing. `Literal.SpelledAs` is that grammar and `Literal.value` the number that is meant, by the
places of its digits. The numeral that a text is read as is that of the literal which the text
spells, and a text that spells none is not read (`Literal.read?_eq_some_iff`); and it has the number
of the literal (`Literal.number_numeral`).

The digits of the grammar are a parameter, since there are digits beyond those of ASCII, which
are the ones that are read.
-/

set_option autoImplicit false

namespace DocumentRules

/-! ## Literals -/

/-- The parts of a literal: its sign, the digits on both sides of the point, and the sign and the
digits of its exponent. -/
structure Literal where
  negative : Bool
  whole : List Char
  fraction : List Char
  lowered : Bool
  exponent : List Char

namespace Literal

/-- An optional sign, true for a minus. -/
inductive SignText : List Char → Bool → Prop
  | absent : SignText [] false
  | plus : SignText ['+'] false
  | minus : SignText ['-'] true

/-- Nothing but digits. -/
def Run (digit : Char → Bool) (cs : List Char) : Prop :=
  ∀ c ∈ cs, digit c = true

/-- Digits, a point and more digits, or only one of the two runs: digits in front may do without the
point, and with the point without the digits behind it, and digits behind it need the point. -/
inductive PointText (digit : Char → Bool) : List Char → List Char → List Char → Prop
  | plain {ds : List Char} : ds ≠ [] → Run digit ds → PointText digit ds ds []
  | pointed {ds fs : List Char} : ds ≠ [] → Run digit ds → Run digit fs →
      PointText digit (ds ++ '.' :: fs) ds fs
  | fraction {fs : List Char} : fs ≠ [] → Run digit fs → PointText digit ('.' :: fs) [] fs

/-- An optional exponent, with its sign. -/
inductive ExponentText (digit : Char → Bool) : List Char → Bool → List Char → Prop
  | absent : ExponentText digit [] false []
  | marked {mark : Char} {sign ds : List Char} {lowered : Bool} : mark = 'e' ∨ mark = 'E' →
      SignText sign lowered → ds ≠ [] → Run digit ds →
      ExponentText digit (mark :: sign ++ ds) lowered ds

/-- The text of a literal, over some digits. -/
def SpelledAs (digit : Char → Bool) (l : Literal) (cs : List Char) : Prop :=
  ∃ sign body tail, cs = sign ++ body ++ tail ∧ SignText sign l.negative ∧
    PointText digit body l.whole l.fraction ∧ ExponentText digit tail l.lowered l.exponent

/-- The exponent as a number. -/
def power (l : Literal) : ℤ :=
  if l.lowered then -(Numeral.value l.exponent : ℤ) else Numeral.value l.exponent

/-- The number that a literal means. -/
def value (l : Literal) : ℚ :=
  (if l.negative then -1 else 1) *
    (Numeral.value l.whole + Numeral.value l.fraction / 10 ^ l.fraction.length) *
      (10 : ℚ) ^ l.power

/-- The numeral that a literal is read as. -/
def numeral (l : Literal) : Numeral :=
  ⟨l.negative, ⟨Numeral.value (l.whole ++ l.fraction), l.power - l.fraction.length⟩⟩

variable {digit : Char → Bool} {l : Literal} {cs ds fs more sign body tail : List Char}
  {negative : Bool}

theorem value_append (ds fs : List Char) :
    Numeral.value (ds ++ fs) = Numeral.value ds * 10 ^ fs.length + Numeral.value fs := by
  unfold Numeral.value
  rw [Nat.ofDigitChars_append, Nat.ofDigitChars_eq_ofDigitChars_zero, mul_comm]

/-- The numeral of a literal has its number. -/
theorem number_numeral (l : Literal) : l.numeral.number = l.value := by
  have hmagnitude :
      Decimal.value ⟨Numeral.value (l.whole ++ l.fraction), l.power - l.fraction.length⟩ =
        (Numeral.value l.whole + Numeral.value l.fraction / 10 ^ l.fraction.length) *
          (10 : ℚ) ^ l.power := by
    rw [Decimal.value, value_append, zpow_sub₀ (by norm_num), zpow_natCast, Nat.cast_add,
      Nat.cast_mul, Nat.cast_pow, Nat.cast_ofNat]
    field_simp
  unfold numeral Numeral.number value
  dsimp only
  rw [hmagnitude]
  split <;> ring

/-- The numeral of a literal is read as the double nearest to its number. -/
theorem nearest_toFloat (l : Literal) : Double.Nearest l.value l.numeral.toFloat := by
  rw [← l.number_numeral]
  exact l.numeral.nearest_toFloat

/-! ## Reading a literal -/

/-- A text that no digit opens. -/
def NoDigit (cs : List Char) : Prop :=
  ∀ c, cs.head? = some c → c.isDigit = false

theorem digits_append (hrun : Run Char.isDigit ds) (hmore : NoDigit more) :
    Numeral.digits (ds ++ more) = ds ∧ Numeral.afterDigits (ds ++ more) = more := by
  unfold Numeral.digits Numeral.afterDigits
  rw [List.takeWhile_append_of_pos hrun, List.dropWhile_append_of_pos hrun]
  cases more with
  | nil => simp
  | cons c rest => simp [hmore c rfl]

theorem run_digits (cs : List Char) : Run Char.isDigit (Numeral.digits cs) :=
  fun _ hc => List.mem_takeWhile_imp hc

theorem digits_append_afterDigits (cs : List Char) :
    Numeral.digits cs ++ Numeral.afterDigits cs = cs :=
  List.takeWhile_append_dropWhile

/-- A sign is taken off the front, if what follows it begins with none. -/
theorem takeSign_append (hsign : SignText sign negative) (hplus : cs.head? ≠ some '+')
    (hminus : cs.head? ≠ some '-') : Numeral.takeSign (sign ++ cs) = (negative, cs) := by
  cases hsign with
  | absent =>
    rw [List.nil_append]
    unfold Numeral.takeSign
    split
    · exact absurd rfl hminus
    · exact absurd rfl hplus
    · rfl
  | plus => rfl
  | minus => rfl

theorem exists_takeSign (cs : List Char) :
    ∃ sign, cs = sign ++ (Numeral.takeSign cs).2 ∧ SignText sign (Numeral.takeSign cs).1 := by
  unfold Numeral.takeSign
  split
  · exact ⟨['-'], rfl, .minus⟩
  · exact ⟨['+'], rfl, .plus⟩
  · exact ⟨[], rfl, .absent⟩

/-- Digits are no sign. -/
theorem head?_ne_of_run {c : Char} (hc : c.isDigit = false) (hne : ds ≠ [])
    (h : Run Char.isDigit ds)
    (more : List Char) : (ds ++ more).head? ≠ some c := by
  cases ds with
  | nil => exact absurd rfl hne
  | cons d rest =>
    intro hhead
    have hd : d.isDigit = true := h d List.mem_cons_self
    have heq : d = c := by simpa using hhead
    rw [heq, hc] at hd
    exact Bool.false_ne_true hd

theorem exponent?_cons (mark : Char) (rest : List Char) :
    Numeral.exponent? (mark :: rest) =
      if (mark = 'e' ∨ mark = 'E') ∧ Numeral.digits (Numeral.takeSign rest).2 ≠ [] ∧
          Numeral.afterDigits (Numeral.takeSign rest).2 = [] then
        some (if (Numeral.takeSign rest).1 then -(Numeral.value (Numeral.takeSign rest).2 : ℤ)
          else Numeral.value (Numeral.takeSign rest).2)
      else none :=
  rfl

/-- What is read as an exponent is the text of one. -/
theorem exists_exponentText {n : ℤ} (h : Numeral.exponent? cs = some n) :
    ∃ lowered ds, ExponentText Char.isDigit cs lowered ds ∧
      n = if lowered then -(Numeral.value ds : ℤ) else Numeral.value ds := by
  cases cs with
  | nil =>
    have hzero : 0 = n := Option.some.inj h
    exact ⟨false, [], .absent, hzero.symm⟩
  | cons mark rest =>
    obtain ⟨sign, hrest, hsign⟩ := exists_takeSign rest
    rw [exponent?_cons] at h
    generalize Numeral.takeSign rest = taken at h hrest hsign
    obtain ⟨lowered, body⟩ := taken
    dsimp only at h hrest hsign
    split at h
    · next hall =>
      obtain ⟨hmark, hne, hend⟩ := hall
      have hbody : Numeral.digits body = body := by
        have hsplit := digits_append_afterDigits body
        rwa [hend, List.append_nil] at hsplit
      have hrun := run_digits body
      rw [hbody] at hne hrun
      refine ⟨lowered, body, ?_, (Option.some.inj h).symm⟩
      rw [hrest]
      exact .marked hmark hsign hne hrun
    · cases h

theorem ExponentText.exponent? {lowered : Bool} (h : ExponentText Char.isDigit cs lowered ds) :
    Numeral.exponent? cs =
      some (if lowered then -(Numeral.value ds : ℤ) else Numeral.value ds) := by
  cases h with
  | absent => rfl
  | @marked mark sign _ _ hmark hsign hne hrun =>
    have htaken : Numeral.takeSign (sign ++ ds) = (lowered, ds) := by
      have hhead := fun c hc => head?_ne_of_run (c := c) hc hne hrun []
      simp only [List.append_nil] at hhead
      exact takeSign_append hsign (hhead '+' rfl) (hhead '-' rfl)
    have hnone : NoDigit [] := by
      intro c hc
      cases hc
    have hdigits := digits_append hrun hnone
    rw [List.append_nil] at hdigits
    rw [List.cons_append, exponent?_cons, htaken]
    dsimp only
    rw [hdigits.1, hdigits.2, if_pos ⟨hmark, hne, rfl⟩]

/-- No digit and no point opens an exponent. -/
theorem ExponentText.head? {lowered : Bool} (h : ExponentText digit cs lowered ds) :
    NoDigit cs ∧ cs.head? ≠ some '.' := by
  cases h with
  | absent =>
    constructor
    · intro c hc
      cases hc
    · intro hhead
      cases hhead
  | @marked mark sign _ _ hmark hsign hne hrun =>
    rw [List.cons_append]
    constructor
    · intro c hc
      obtain rfl : mark = c := Option.some.inj hc
      rcases hmark with rfl | rfl <;> rfl
    · intro hhead
      obtain rfl : mark = '.' := Option.some.inj hhead
      simp at hmark

theorem takeFraction_of_head? (h : cs.head? ≠ some '.') : Numeral.takeFraction cs = ([], cs) := by
  unfold Numeral.takeFraction
  split
  · exact absurd rfl h
  · rfl

theorem takeFraction_point (hrun : Run Char.isDigit fs) (htail : NoDigit tail) :
    Numeral.takeFraction ('.' :: (fs ++ tail)) = (fs, tail) := by
  have hdigits := digits_append hrun htail
  rw [Numeral.takeFraction, hdigits.1, hdigits.2]

theorem noDigit_point (cs : List Char) : NoDigit ('.' :: cs) := by
  intro c hc
  obtain rfl : '.' = c := Option.some.inj hc
  rfl

/-- The digits around the point are taken off the front of a text. -/
theorem PointText.taken (h : PointText Char.isDigit body ds fs) (htail : NoDigit tail)
    (hpoint : tail.head? ≠ some '.') :
    Numeral.digits (body ++ tail) = ds ∧
      Numeral.takeFraction (Numeral.afterDigits (body ++ tail)) = (fs, tail) := by
  cases h with
  | plain hne hrun =>
    obtain ⟨hdigits, hafter⟩ := digits_append hrun htail
    exact ⟨hdigits, by rw [hafter, takeFraction_of_head? hpoint]⟩
  | pointed hne hrun hfraction =>
    rw [List.append_assoc, List.cons_append]
    obtain ⟨hdigits, hafter⟩ := digits_append hrun (noDigit_point (fs ++ tail))
    exact ⟨hdigits, by rw [hafter, takeFraction_point hfraction htail]⟩
  | fraction hne hfraction =>
    have hnone : Run Char.isDigit [] := List.forall_mem_nil _
    rw [List.cons_append]
    obtain ⟨hdigits, hafter⟩ := digits_append hnone (noDigit_point (fs ++ tail))
    exact ⟨hdigits, by
      rw [← List.nil_append ('.' :: _), hafter, takeFraction_point hfraction htail]⟩

/-- Digits around a point begin with a digit or the point. -/
theorem PointText.head?_ne {c : Char} (h : PointText Char.isDigit body ds fs)
    (hdigit : c.isDigit = false) (hpoint : c ≠ '.') (more : List Char) :
    (body ++ more).head? ≠ some c := by
  cases h with
  | plain hne hrun => exact head?_ne_of_run hdigit hne hrun more
  | pointed hne hrun hfraction =>
    rw [List.append_assoc]
    exact head?_ne_of_run hdigit hne hrun _
  | fraction hne hfraction =>
    intro hhead
    exact hpoint (Option.some.inj hhead).symm

theorem PointText.ne_nil (h : PointText digit body ds fs) : ¬(ds = [] ∧ fs = []) := by
  cases h with
  | plain hne hrun => exact fun hnil => hne hnil.1
  | pointed hne hrun hfraction => exact fun hnil => hne hnil.1
  | fraction hne hfraction => exact fun hnil => hne hnil.2

/-- What is taken off the front of a text are the digits around a point. -/
theorem exists_pointText (cs : List Char)
    (h : ¬(Numeral.digits cs = [] ∧ (Numeral.takeFraction (Numeral.afterDigits cs)).1 = [])) :
    ∃ body, cs = body ++ (Numeral.takeFraction (Numeral.afterDigits cs)).2 ∧
      PointText Char.isDigit body (Numeral.digits cs)
        (Numeral.takeFraction (Numeral.afterDigits cs)).1 := by
  have hsplit := digits_append_afterDigits cs
  have hrun := run_digits cs
  generalize Numeral.digits cs = whole at *
  generalize Numeral.afterDigits cs = rest at *
  subst hsplit
  unfold Numeral.takeFraction at h ⊢
  split at h
  · next rest =>
    have hfraction := run_digits rest
    dsimp only at h ⊢
    by_cases hwhole : whole = []
    · subst hwhole
      refine ⟨'.' :: Numeral.digits rest, ?_, .fraction (fun hnil => h ⟨rfl, hnil⟩) hfraction⟩
      rw [List.nil_append, List.cons_append, digits_append_afterDigits]
    · refine ⟨whole ++ '.' :: Numeral.digits rest, ?_, .pointed hwhole hrun hfraction⟩
      rw [List.append_assoc, List.cons_append, digits_append_afterDigits]
  · exact ⟨whole, rfl, .plain (fun hnil => h ⟨hnil, rfl⟩) hrun⟩

theorem read?_eq (cs : List Char) : Numeral.read? cs =
    if Numeral.digits (Numeral.takeSign cs).2 = [] ∧
        (Numeral.takeFraction (Numeral.afterDigits (Numeral.takeSign cs).2)).1 = [] then none
    else (Numeral.exponent? (Numeral.takeFraction (Numeral.afterDigits
        (Numeral.takeSign cs).2)).2).map fun exponent =>
      ⟨(Numeral.takeSign cs).1, ⟨Numeral.value (Numeral.digits (Numeral.takeSign cs).2 ++
          (Numeral.takeFraction (Numeral.afterDigits (Numeral.takeSign cs).2)).1),
        exponent -
          (Numeral.takeFraction (Numeral.afterDigits (Numeral.takeSign cs).2)).1.length⟩⟩ :=
  rfl

/-- **Reading a numeral is reading a literal.** -/
theorem read?_eq_some_iff {n : Numeral} :
    Numeral.read? cs = some n ↔ ∃ l : Literal, l.SpelledAs Char.isDigit cs ∧ l.numeral = n := by
  rw [read?_eq]
  constructor
  · intro h
    obtain ⟨sign, hcs, hsign⟩ := exists_takeSign cs
    generalize Numeral.takeSign cs = taken at *
    obtain ⟨negative, rest⟩ := taken
    dsimp only at *
    split at h
    · cases h
    · next hne =>
      obtain ⟨body, hrest, hpoint⟩ := exists_pointText rest hne
      obtain ⟨exponent, hexponent, rfl⟩ := Option.map_eq_some_iff.mp h
      obtain ⟨lowered, ds, htail, rfl⟩ := exists_exponentText hexponent
      refine ⟨⟨negative, _, _, lowered, ds⟩, ⟨sign, body, _, ?_, hsign, hpoint, htail⟩, rfl⟩
      rw [hcs, List.append_assoc, ← hrest]
  · intro h
    obtain ⟨l, ⟨sign, body, tail, rfl, hsign, hpoint, htail⟩, rfl⟩ := h
    obtain ⟨hnodigit, hnopoint⟩ := htail.head?
    obtain ⟨hdigits, hfraction⟩ := hpoint.taken hnodigit hnopoint
    have hsigned : Numeral.takeSign (sign ++ body ++ tail) = (l.negative, body ++ tail) := by
      rw [List.append_assoc]
      exact takeSign_append hsign (hpoint.head?_ne rfl (by decide) tail)
        (hpoint.head?_ne rfl (by decide) tail)
    rw [hsigned]
    dsimp only
    rw [hdigits, hfraction, if_neg hpoint.ne_nil, htail.exponent?]
    rfl

end Literal

end DocumentRules
