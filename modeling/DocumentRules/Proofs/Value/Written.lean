import DocumentRules.Proofs.Decimal.Digits
import DocumentRules.Proofs.Json.Delimited

/-!
# Texts of equal values

Equality compares numbers by what they are worth, and texts show how they are spelled. Where equal
values have one text is therefore a matter of their numbers, and of where these stand. On its own
or in an array a number is written as a text of its own, in an object as documents have it, which
tells an integer from a double and one zero from the other. So equal values have one text exactly
if they are *written alike*: numbers outside of objects have the same text, and objects are the
same (`Value.text_eq_iff`).

That the text of an array shows its items is not for granted, since strings stand in it without
quotes and arrays without brackets. It holds of equal arrays, whose texts are read off item by item.

Numbers of one worth have one text unless one of them is an integer beyond 53 bits. So values
without objects and without such integers have one text if they are equal
(`Json.text_eq_of_strictEq`).
-/

set_option autoImplicit false

namespace DocumentRules

/-! ## Numbers -/

/-- Zero is written without its sign, so equal doubles are written the same. -/
theorem Layout.plain_format_eq_of_beq {x y : Float} (h : (x == y) = true) :
    Layout.plain.format x = Layout.plain.format y := by
  have hzeros : Layout.plain.format 0 = Layout.plain.format (-0) := by decide +kernel
  rcases Double.eq_or_zeros_of_beq h with rfl | ⟨rfl, rfl⟩ | ⟨rfl, rfl⟩
  · rfl
  · exact hzeros
  · exact hzeros.symm

namespace Number

/-- A double, or an integer of at most 53 bits. -/
def fitsDouble : Number → Bool
  | .int n => decide (n.natAbs ≤ safeInteger)
  | .double _ _ => true

theorem text_eq_format {n : Number} (h : n.fitsDouble = true) :
    n.text = Layout.plain.format n.toFloat := by
  cases n with
  | int n => exact (Layout.plain_format_ofInt (of_decide_eq_true h)).symm
  | double x hfinite => rfl

theorem text_eq_of_sameWorth {m n : Number} (hm : m.fitsDouble = true) (hn : n.fitsDouble = true)
    (h : m.sameWorth n = true) : m.text = n.text := by
  rw [text_eq_format hm, text_eq_format hn]
  exact Layout.plain_format_eq_of_beq h

end Number

/-! ## Values that are written alike -/

namespace Json

mutual

/-- The values are the same but for numbers outside of objects, which have the same text. -/
def WrittenAlike : Json → Json → Prop
  | .num m, .num n => m.text = n.text
  | .arr vs, .arr ws => ItemsWrittenAlike vs ws
  | v, w => v = w
termination_by structural v => v

/-- So for the items of two arrays, in pairs. -/
def ItemsWrittenAlike : List Json → List Json → Prop
  | [], [] => True
  | v :: vs, w :: ws => v.WrittenAlike w ∧ ItemsWrittenAlike vs ws
  | _, _ => False
termination_by structural vs => vs

end

/-- The text of a value in an array, where null is empty. -/
def itemText : Json → String
  | .null => ""
  | v => v.text

theorem itemText_eq_text {v : Json} (h : v ≠ .null) : v.itemText = v.text := by
  cases v <;> first | rfl | exact absurd rfl h

theorem itemTexts_eq_map (vs : List Json) : itemTexts vs = vs.map itemText := by
  induction vs with
  | nil => rfl
  | cons v vs ih => cases v <;> exact congrArg (_ :: ·) ih

theorem WrittenAlike.itemText_eq {v w : Json} (h : v.WrittenAlike w) (htext : v.text = w.text) :
    v.itemText = w.itemText := by
  by_cases hnull : v = .null
  · subst hnull
    cases w <;> first | rfl | cases h
  · by_cases hnull' : w = .null
    · subst hnull'
      cases v <;> first | rfl | cases h
    · rw [itemText_eq_text hnull, itemText_eq_text hnull', htext]

mutual

theorem WrittenAlike.text_eq : ∀ {v w : Json}, v.WrittenAlike w → v.text = w.text
  | .num _, .num _, h => h
  | .arr _, .arr _, h => congrArg (",".intercalate ·) (itemTexts_eq_of_writtenAlike h)
  | .obj vs, w, h => congrArg text (show Json.obj vs = w by cases w <;> exact h)
  | .null, w, h => congrArg text (show Json.null = w by cases w <;> exact h)
  | .bool p, w, h => congrArg text (show Json.bool p = w by cases w <;> exact h)
  | .str s, w, h => congrArg text (show Json.str s = w by cases w <;> exact h)

theorem itemTexts_eq_of_writtenAlike : ∀ {vs ws : List Json}, ItemsWrittenAlike vs ws →
    itemTexts vs = itemTexts ws
  | [], [], _ => rfl
  | v :: vs, w :: ws, h => by
    have hrest := itemTexts_eq_of_writtenAlike h.2
    rw [itemTexts_eq_map, itemTexts_eq_map] at hrest ⊢
    exact congrArg₂ List.cons (h.1.itemText_eq h.1.text_eq) hrest

end

/-! ## Equal values with one text -/

theorem strictEq_null_iff {v w : Json} (h : v.strictEq w = true) : v = .null ↔ w = .null := by
  cases v <;> cases w <;> first | simp; done | cases h

theorem itemsWrittenAlike_of_forall₂ {vs ws : List Json} (h : List.Forall₂ WrittenAlike vs ws) :
    ItemsWrittenAlike vs ws := by
  induction h with
  | nil => trivial
  | cons hitem _ ih => exact ⟨hitem, ih⟩

mutual

theorem readsOff_text : ∀ {v w : Json}, v.strictEq w = true →
    ReadsOff v.text w.text (v.WrittenAlike w)
  | .null, .null, _ => .self _ rfl
  | .bool p, .bool q, h => by
    obtain rfl : p = q := beq_iff_eq.mp h
    exact .self _ rfl
  | .num m, .num n, _ => .of_isNumeral m.isNumeral_text n.isNumeral_text
  | .str s, .str t, h => by
    obtain rfl : s = t := beq_iff_eq.mp h
    exact .self _ rfl
  | .arr vs, .arr ws, h => by
    have hitems := ReadsOff.join (readsOff_itemTexts h)
    rw [← itemTexts_eq_map, ← itemTexts_eq_map] at hitems
    exact hitems.imp itemsWrittenAlike_of_forall₂
  | .obj vs, .obj ws, h => readsOff_render (v := .obj vs) (w := .obj ws) h

theorem readsOff_itemTexts : ∀ {vs ws : List Json}, itemsEq vs ws = true →
    List.Forall₂ (fun v w => ReadsOff v.itemText w.itemText (v.WrittenAlike w)) vs ws
  | [], [], _ => .nil
  | v :: vs, w :: ws, h => by
    obtain ⟨hitem, hitems⟩ := Bool.and_eq_true_iff.mp h
    refine .cons ?_ (readsOff_itemTexts hitems)
    -- a null is empty as an item, though not on its own
    by_cases hnull : v = .null
    · obtain rfl := (strictEq_null_iff hitem).mp hnull
      subst hnull
      exact .self _ rfl
    · rw [itemText_eq_text hnull, itemText_eq_text ((strictEq_null_iff hitem).not.mp hnull)]
      exact readsOff_text hitem

end

/-! ## Values whose text shows their worth -/

mutual

/-- The text shows what the value is worth and nothing of how it is spelled: there is no object in
it, and no integer beyond 53 bits. -/
def showsWorth : Json → Bool
  | .null => true
  | .bool _ => true
  | .num n => n.fitsDouble
  | .str _ => true
  | .arr items => itemsShowWorth items
  | .obj _ => false
termination_by structural value => value

/-- So for all items of an array. -/
def itemsShowWorth : List Json → Bool
  | [] => true
  | item :: rest => item.showsWorth && itemsShowWorth rest
termination_by structural items => items

end

mutual

theorem writtenAlike_of_strictEq : ∀ {v w : Json}, v.showsWorth = true → w.showsWorth = true →
    v.strictEq w = true → v.WrittenAlike w
  | .null, .null, _, _, _ => rfl
  | .bool _, .bool _, _, _, h => congrArg Json.bool (beq_iff_eq.mp h)
  | .num _, .num _, hv, hw, h => Number.text_eq_of_sameWorth hv hw h
  | .str _, .str _, _, _, h => congrArg Json.str (beq_iff_eq.mp h)
  | .arr _, .arr _, hv, hw, h => itemsWrittenAlike_of_itemsEq hv hw h

theorem itemsWrittenAlike_of_itemsEq : ∀ {vs ws : List Json}, itemsShowWorth vs = true →
    itemsShowWorth ws = true → itemsEq vs ws = true → ItemsWrittenAlike vs ws
  | [], [], _, _, _ => trivial
  | v :: vs, w :: ws, hv, hw, h => by
    obtain ⟨hv, hvs⟩ := Bool.and_eq_true_iff.mp hv
    obtain ⟨hw, hws⟩ := Bool.and_eq_true_iff.mp hw
    obtain ⟨hitem, hitems⟩ := Bool.and_eq_true_iff.mp h
    exact ⟨writtenAlike_of_strictEq hv hw hitem, itemsWrittenAlike_of_itemsEq hvs hws hitems⟩

end

/-- Equal values have one text, if their texts show what they are worth. -/
theorem text_eq_of_strictEq {v w : Json} (hv : v.showsWorth = true) (hw : w.showsWorth = true)
    (h : v.strictEq w = true) : v.text = w.text :=
  (writtenAlike_of_strictEq hv hw h).text_eq

end Json

namespace Value

/-- The values are the same but for numbers outside of objects, which have the same text. -/
def WrittenAlike : Value → Value → Prop
  | .undefined, .undefined => True
  | .json v, .json w => v.WrittenAlike w
  | _, _ => False

/-- **Equal values have one text exactly if they are written alike.** -/
theorem text_eq_iff {a b : Value} (h : a.strictEq b = true) :
    a.text = b.text ↔ a.WrittenAlike b := by
  cases a with
  | undefined =>
    cases b with
    | undefined => exact iff_of_true rfl trivial
    | json w => cases h
  | json v =>
    cases b with
    | undefined => cases h
    | json w => exact ⟨(Json.readsOff_text h).of_eq, Json.WrittenAlike.text_eq⟩

/-- There is no object in the value, and no integer beyond 53 bits. -/
def showsWorth : Value → Bool
  | .undefined => true
  | .json v => v.showsWorth

theorem writtenAlike_of_strictEq {a b : Value} (ha : a.showsWorth = true) (hb : b.showsWorth = true)
    (h : a.strictEq b = true) : a.WrittenAlike b := by
  cases a with
  | undefined =>
    cases b with
    | undefined => exact trivial
    | json w => cases h
  | json v =>
    cases b with
    | undefined => cases h
    | json w => exact Json.writtenAlike_of_strictEq ha hb h

end Value

end DocumentRules
