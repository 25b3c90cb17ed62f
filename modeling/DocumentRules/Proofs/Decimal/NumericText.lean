import DocumentRules.Proofs.Decimal.Literal

/-!
# Which texts are numbers

A text is a number exactly if it is a literal between blanks and the double nearest to the number of
the literal is finite (`numericText?_accepts_literals`).

Matching a text against the grammar with more digits than the ten of ASCII does no harm, as long as
the text is then read as a double: reading knows no other digits and refuses them. It also knows the
names of the infinities and of NaN, and none of these is finite. So the two readers together accept
what the grammar with ten digits does.
-/

set_option autoImplicit false

namespace DocumentRules

/-! ## Blanks -/

namespace Text

/-- The characters stand in the text between blanks and nothing else. -/
def Between (text cs : List Char) : Prop :=
  ∃ before after, text = before ++ cs ++ after ∧ allBlank before = true ∧ allBlank after = true

variable {cs : List Char}

theorem allBlank_takeWhile (cs : List Char) : allBlank (cs.takeWhile isBlank) = true :=
  List.all_eq_true.mpr fun _ hc => List.mem_takeWhile_imp hc

theorem between_trim (cs : List Char) : Between cs (trim cs) := by
  refine ⟨cs.takeWhile isBlank, ((cs.dropWhile isBlank).reverse.takeWhile isBlank).reverse, ?_,
    allBlank_takeWhile cs, ?_⟩
  · have hend :=
      List.takeWhile_append_dropWhile (p := isBlank) (l := (cs.dropWhile isBlank).reverse)
    have hback := congrArg List.reverse hend
    rw [List.reverse_append, List.reverse_reverse] at hback
    rw [trim, List.append_assoc, hback, List.takeWhile_append_dropWhile]
  · rw [allBlank, List.all_reverse]
    exact allBlank_takeWhile _

theorem dropWhile_blank (h : ∀ c ∈ cs, isBlank c = false) : cs.dropWhile isBlank = cs := by
  cases cs with
  | nil => rfl
  | cons c rest => simp [h c List.mem_cons_self]

/-- What has no blanks itself is what trimming leaves. -/
theorem trim_eq_of_between {text : List Char} (h : Between text cs)
    (hcs : ∀ c ∈ cs, isBlank c = false) : trim text = cs := by
  obtain ⟨before, after, rfl, hbefore, hafter⟩ := h
  have hfront : (before ++ cs ++ after).dropWhile isBlank = (cs ++ after).dropWhile isBlank := by
    rw [List.append_assoc]
    exact List.dropWhile_append_of_pos (List.all_eq_true.mp hbefore)
  have hall : ∀ c ∈ after.reverse, isBlank c = true := fun c hc =>
    List.all_eq_true.mp hafter c (List.mem_reverse.mp hc)
  cases cs with
  | nil =>
    have hnone : after.dropWhile isBlank = [] :=
      List.dropWhile_eq_nil_iff.mpr (List.all_eq_true.mp hafter)
    rw [trim, hfront, List.nil_append, hnone]
    rfl
  | cons c rest =>
    have hkeep : (c :: rest ++ after).dropWhile isBlank = c :: rest ++ after := by
      rw [List.cons_append, List.dropWhile_cons_of_neg]
      simp [hcs c List.mem_cons_self]
    have hback : ∀ d ∈ (c :: rest).reverse, isBlank d = false := fun d hd =>
      hcs d (List.mem_reverse.mp hd)
    rw [trim, hfront, hkeep, List.reverse_append, List.dropWhile_append_of_pos hall,
      dropWhile_blank hback, List.reverse_reverse]

end Text

namespace Literal

variable {l : Literal} {cs ds fs : List Char}

theorem isBlank_of_isDigit {c : Char} (h : c.isDigit = true) : Text.isBlank c = false := by
  have hrange : 48 ≤ c.toNat ∧ c.toNat ≤ 57 := Char.isDigit_iff_toNat.mp h
  unfold Text.isBlank Text.blankRanges
  simp only [List.any_cons, List.any_nil, Bool.or_false, Bool.or_eq_false_iff,
    Bool.and_eq_false_iff, decide_eq_false_iff_not]
  omega

theorem isBlank_of_run (h : Run Char.isDigit ds) : ∀ c ∈ ds, Text.isBlank c = false :=
  fun c hc => isBlank_of_isDigit (h c hc)

theorem SignText.isBlank {sign : List Char} {negative : Bool} (h : SignText sign negative) :
    ∀ c ∈ sign, Text.isBlank c = false := by
  cases h with
  | absent => exact List.forall_mem_nil _
  | plus => exact List.forall_mem_singleton.mpr rfl
  | minus => exact List.forall_mem_singleton.mpr rfl

theorem PointText.isBlank (h : PointText Char.isDigit cs ds fs) :
    ∀ c ∈ cs, Text.isBlank c = false := by
  cases h with
  | plain hne hrun => exact isBlank_of_run hrun
  | pointed hne hrun hfraction =>
    refine List.forall_mem_append.mpr ⟨isBlank_of_run hrun, ?_⟩
    exact List.forall_mem_cons.mpr ⟨rfl, isBlank_of_run hfraction⟩
  | fraction hne hfraction => exact List.forall_mem_cons.mpr ⟨rfl, isBlank_of_run hfraction⟩

theorem ExponentText.isBlank {lowered : Bool} (h : ExponentText Char.isDigit cs lowered ds) :
    ∀ c ∈ cs, Text.isBlank c = false := by
  cases h with
  | absent => exact List.forall_mem_nil _
  | @marked mark sign _ _ hmark hsign hne hrun =>
    have hmarkBlank : Text.isBlank mark = false := by
      rcases hmark with rfl | rfl <;> rfl
    refine List.forall_mem_append.mpr ⟨?_, isBlank_of_run hrun⟩
    exact List.forall_mem_cons.mpr ⟨hmarkBlank, hsign.isBlank⟩

/-- No character of a literal is blank. -/
theorem SpelledAs.isBlank (h : l.SpelledAs Char.isDigit cs) : ∀ c ∈ cs, Text.isBlank c = false := by
  obtain ⟨sign, body, tail, rfl, hsign, hpoint, hexponent⟩ := h
  refine List.forall_mem_append.mpr ⟨?_, hexponent.isBlank⟩
  exact List.forall_mem_append.mpr ⟨hsign.isBlank, hpoint.isBlank⟩

/-! ## More digits -/

variable {digit wider : Char → Bool}

theorem Run.mono (hwider : ∀ c, digit c = true → wider c = true) (h : Run digit ds) :
    Run wider ds :=
  fun c hc => hwider c (h c hc)

/-- A grammar that knows more digits has more texts. -/
theorem SpelledAs.mono (hwider : ∀ c, digit c = true → wider c = true) (h : l.SpelledAs digit cs) :
    l.SpelledAs wider cs := by
  obtain ⟨sign, body, tail, hcs, hsign, hpoint, hexponent⟩ := h
  refine ⟨sign, body, tail, hcs, hsign, ?_, ?_⟩
  · generalize l.whole = whole at *
    generalize l.fraction = fraction at *
    cases hpoint with
    | plain hne hrun => exact .plain hne (hrun.mono hwider)
    | pointed hne hrun hfraction => exact .pointed hne (hrun.mono hwider) (hfraction.mono hwider)
    | fraction hne hfraction => exact .fraction hne (hfraction.mono hwider)
  · generalize l.lowered = lowered at *
    generalize l.exponent = exponent at *
    cases hexponent with
    | absent => exact .absent
    | marked hmark hsign hne hrun => exact .marked hmark hsign hne (hrun.mono hwider)

end Literal

/-! ## Texts that are numbers -/

/-- The name of an infinity or of NaN, in letters of any case. -/
def Double.named? (cs : List Char) : Option Float :=
  let (negative, body) := Numeral.takeSign cs
  let name := String.ofList (body.map Char.toLower)
  if name = "inf" ∨ name = "infinity" then some (if negative then -(1 / 0) else 1 / 0)
  else if name = "nan" then some (0 / 0)
  else none

/-- A text as a double: a numeral, or a name. -/
def Double.parse? (cs : List Char) : Option Float :=
  match Numeral.read? cs with
  | some n => some n.toFloat
  | none => Double.named? cs

theorem Double.isFinite_of_named? {cs : List Char} {x : Float} (h : Double.named? cs = some x) :
    x.isFinite = false := by
  have hinfinities : Float.isFinite (-(1 / 0)) = false ∧ Float.isFinite (1 / 0) = false ∧
      Float.isFinite (0 / 0) = false := by decide +kernel
  unfold Double.named? at h
  dsimp only at h
  split at h
  · obtain rfl := Option.some.inj h
    split
    · exact hinfinities.1
    · exact hinfinities.2.1
  · split at h
    · obtain rfl := Option.some.inj h
      exact hinfinities.2.2
    · cases h

/-- The text is a literal between blanks. -/
def Literal.IsTextOf (l : Literal) (text : String) : Prop :=
  ∃ cs, Text.Between text.toList cs ∧ l.SpelledAs Char.isDigit cs

variable {text : String} {x : Float}

theorem numericText?_eq_some_iff :
    numericText? text = some x ↔
      ∃ n, Numeral.read? (Text.trim text.toList) = some n ∧ n.toFloat = x ∧ x.isFinite = true := by
  unfold numericText?
  rw [Option.filter_eq_some_iff, Option.map_eq_some_iff]
  constructor
  · intro h
    obtain ⟨⟨n, hread, hx⟩, hfinite⟩ := h
    exact ⟨n, hread, hx, hfinite⟩
  · intro h
    obtain ⟨n, hread, hx, hfinite⟩ := h
    exact ⟨⟨n, hread, hx⟩, hfinite⟩

/-- What is read off a text is the double nearest to the literal that it is. -/
theorem exists_literal_of_numericText? (h : numericText? text = some x) :
    ∃ l : Literal, l.SpelledAs Char.isDigit (Text.trim text.toList) ∧ l.IsTextOf text ∧
      Double.Nearest l.value x ∧ x.isFinite = true := by
  obtain ⟨n, hread, rfl, hfinite⟩ := numericText?_eq_some_iff.mp h
  obtain ⟨l, hspelled, rfl⟩ := Literal.read?_eq_some_iff.mp hread
  exact ⟨l, hspelled, ⟨_, Text.between_trim _, hspelled⟩, l.nearest_toFloat, hfinite⟩

theorem Literal.SpelledAs.isTextOf {l : Literal} {cs : List Char}
    (h : l.SpelledAs Char.isDigit cs) : l.IsTextOf (String.ofList cs) :=
  ⟨cs, ⟨[], [], by simp, rfl, rfl⟩, h⟩

/-- A literal between blanks is read as its numeral, if the nearest double is finite. -/
theorem numericText?_of_isTextOf {l : Literal} (htext : l.IsTextOf text)
    (hnearest : Double.Nearest l.value x) (hfinite : x.isFinite = true) :
    numericText? text = some l.numeral.toFloat := by
  obtain ⟨cs, hbetween, hspelled⟩ := htext
  have htrim := Text.trim_eq_of_between hbetween hspelled.isBlank
  have hread := Literal.read?_eq_some_iff.mpr ⟨l, hspelled, rfl⟩
  rw [← htrim] at hread
  exact numericText?_eq_some_iff.mpr
    ⟨_, hread, rfl, hnearest.isFinite_of_isFinite l.nearest_toFloat hfinite⟩

/-- **A text is a number exactly if it is a literal between blanks whose nearest double is finite**,
and it is read as that double. Two readers in a row accept the same texts: one for the grammar,
which may know other digits besides, and one for doubles, which knows names besides. -/
theorem numericText?_accepts_literals (others : Char → Bool) (text : String) :
    ((numericText? text).isSome = true ↔
      ∃ l : Literal, l.IsTextOf text ∧ ∃ x, Double.Nearest l.value x ∧ x.isFinite = true) ∧
    (∀ x, numericText? text = some x →
      ∃ l : Literal, l.IsTextOf text ∧ Double.Nearest l.value x ∧ x.isFinite = true) ∧
    ∀ x, numericText? text = some x ↔
      (∃ l : Literal, l.SpelledAs (fun c => c.isDigit || others c) (Text.trim text.toList)) ∧
        Double.parse? (Text.trim text.toList) = some x ∧ x.isFinite = true := by
  refine ⟨⟨fun h => ?_, fun h => ?_⟩, fun x h => ?_, fun x => ⟨fun h => ?_, fun h => ?_⟩⟩
  · obtain ⟨x, hx⟩ := Option.isSome_iff_exists.mp h
    obtain ⟨l, -, htext, hnearest, hfinite⟩ := exists_literal_of_numericText? hx
    exact ⟨l, htext, x, hnearest, hfinite⟩
  · obtain ⟨l, htext, x, hnearest, hfinite⟩ := h
    rw [numericText?_of_isTextOf htext hnearest hfinite]
    rfl
  · obtain ⟨l, -, htext, hnearest, hfinite⟩ := exists_literal_of_numericText? h
    exact ⟨l, htext, hnearest, hfinite⟩
  · obtain ⟨l, hspelled, -⟩ := exists_literal_of_numericText? h
    obtain ⟨n, hread, rfl, hfinite⟩ := numericText?_eq_some_iff.mp h
    refine ⟨⟨l, hspelled.mono fun c hc => ?_⟩, ?_, hfinite⟩
    · rw [hc, Bool.true_or]
    · rw [Double.parse?, hread]
  · obtain ⟨-, hparse, hfinite⟩ := h
    unfold Double.parse? at hparse
    split at hparse
    · next n hread =>
      exact numericText?_eq_some_iff.mpr ⟨n, hread, Option.some.inj hparse, hfinite⟩
    · -- a name is not finite
      rw [Double.isFinite_of_named? hparse] at hfinite
      cases hfinite

/-- Blanks of Unicode, a plus sign, a bare point and an exponent. -/
theorem numericText?_half_ten : numericText? "\u00a0+.5E1 " = some 5 ∧
    ∃ l : Literal, l.IsTextOf "\u00a0+.5E1 " ∧ Double.Nearest l.value 5 ∧
      Float.isFinite 5 = true := by
  have hread : numericText? "\u00a0+.5E1 " = some 5 := by decide +kernel
  exact ⟨hread, (numericText?_accepts_literals (fun _ => false) _).2.1 5 hread⟩

end DocumentRules
