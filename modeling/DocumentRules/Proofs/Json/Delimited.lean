import DocumentRules.Proofs.Decimal.Characters
import DocumentRules.Proofs.Value.Equality

/-!
# Where a printed value ends

When are two equal values printed alike? Their parts stand in one text without a mark of
their lengths, so that alike texts need not be alike part by part. They are, because a part
can be told from what follows it. Equal values have the same strings and keys, so these are
read off alike anyway. A number ends where its characters end, and what follows a value is a
comma, a bracket or nothing.

`ReadsOff` says this of two texts: whatever follows them, if both go on to the same text, then
the same follows them, and something else is known of the two. It passes from items to arrays and
from fields to objects (`ReadsOff.join`). So equal values are printed alike only if they are one
value (`Json.eq_of_render`).
-/

set_option autoImplicit false

namespace DocumentRules

/-- The text goes on with no character of a number. -/
def Ends (rest : List Char) : Prop :=
  rest.takeWhile isNumeralChar = []

theorem ends_cons {c : Char} (h : isNumeralChar c = false) (rest : List Char) :
    Ends (c :: rest) := by
  rw [Ends, List.takeWhile_cons, h]
  rfl

/-- Whatever follows the two texts, if they go on to the same text, the same follows them, and they
are related in this way. -/
def ReadsOff (s t : String) (related : Prop) : Prop :=
  ∀ rest rest', Ends rest → Ends rest' → s.toList ++ rest = t.toList ++ rest' →
    related ∧ rest = rest'

namespace ReadsOff

variable {s t : String} {related related' : Prop}

theorem self (s : String) (h : related) : ReadsOff s s related :=
  fun _ _ _ _ heq => ⟨h, List.append_cancel_left heq⟩

theorem imp (h : ReadsOff s t related) (himp : related → related') : ReadsOff s t related' :=
  fun rest rest' hrest hrest' heq => (h rest rest' hrest hrest' heq).imp_left himp

/-- With nothing behind them. -/
theorem of_eq (h : ReadsOff s t related) (heq : s = t) : related :=
  (h [] [] rfl rfl (by rw [heq])).1

theorem behind (h : ReadsOff s t related) (front : String) :
    ReadsOff (front ++ s) (front ++ t) related := by
  intro rest rest' hrest hrest' heq
  simp only [String.toList_append, List.append_assoc] at heq
  exact h rest rest' hrest hrest' (List.append_cancel_left heq)

/-- A closing text, which ends what stands before it, needs no end behind it. -/
theorem closed (h : ReadsOff s t related) (close : String)
    (hclose : ∀ rest, Ends (close.toList ++ rest)) :
    ReadsOff (s ++ close) (t ++ close) related := by
  intro rest rest' _ _ heq
  simp only [String.toList_append, List.append_assoc] at heq
  obtain ⟨hrelated, hrest⟩ := h _ _ (hclose rest) (hclose rest') heq
  exact ⟨hrelated, List.append_cancel_left hrest⟩

/-- Texts made of characters of numbers. -/
theorem of_isNumeral (hs : IsNumeral s.toList) (ht : IsNumeral t.toList) :
    ReadsOff s t (s = t) := by
  intro rest rest' hrest hrest' heq
  have htaken : (s.toList ++ rest).takeWhile isNumeralChar =
      (t.toList ++ rest').takeWhile isNumeralChar := by rw [heq]
  rw [List.takeWhile_append_of_pos hs, List.takeWhile_append_of_pos ht, hrest, hrest',
    List.append_nil, List.append_nil] at htaken
  rw [htaken] at heq
  exact ⟨String.toList_injective htaken, List.append_cancel_left heq⟩

/-- Texts between commas are read off one by one. -/
theorem join {α : Type} {f : α → String} {r : α → α → Prop} {vs ws : List α}
    (h : List.Forall₂ (fun v w => ReadsOff (f v) (f w) (r v w)) vs ws) :
    ReadsOff (",".intercalate (vs.map f)) (",".intercalate (ws.map f)) (List.Forall₂ r vs ws) := by
  induction h with
  | nil => exact self _ .nil
  | @cons v w vs ws hfirst hrest ih =>
    cases hrest with
    | nil => exact hfirst.imp fun h => .cons h .nil
    | cons =>
      intro rest rest' hends hends' heq
      simp only [List.map_cons, String.intercalate_cons_cons, String.toList_append,
        List.append_assoc] at heq ih
      obtain ⟨hrelated, hmore⟩ := hfirst _ _ (ends_cons rfl _) (ends_cons rfl _) heq
      obtain ⟨hrelateds, hsame⟩ := ih rest rest' hends hends' (List.cons.inj hmore).2
      exact ⟨.cons hrelated hrelateds, hsame⟩

end ReadsOff

namespace Json

theorem renderItems_eq_map (vs : List Json) : renderItems vs = vs.map render := by
  induction vs with
  | nil => rfl
  | cons v vs ih => exact congrArg (v.render :: ·) ih

/-- A field as it is printed. -/
def renderField (field : String × Json) : String :=
  quoted field.1 ++ ":" ++ field.2.render

theorem renderFields_eq_map (vs : List (String × Json)) :
    renderFields vs = vs.map renderField := by
  induction vs with
  | nil => rfl
  | cons field vs ih => exact congrArg (renderField field :: ·) ih

mutual

theorem readsOff_render : ∀ {v w : Json}, v.strictEq w = true →
    ReadsOff v.render w.render (v = w)
  | .null, .null, _ => .self _ rfl
  | .bool p, .bool q, h => by
    obtain rfl : p = q := beq_iff_eq.mp h
    exact .self _ rfl
  | .num m, .num n, h =>
    (ReadsOff.of_isNumeral m.isNumeral_render n.isNumeral_render).imp
      fun heq => congrArg num (Number.eq_of_render h heq)
  | .str s, .str t, h => by
    obtain rfl : s = t := beq_iff_eq.mp h
    exact .self _ rfl
  | .arr vs, .arr ws, h => by
    have hitems := ReadsOff.join (readsOff_items h)
    rw [← renderItems_eq_map, ← renderItems_eq_map] at hitems
    refine ((hitems.behind "[").closed "]" fun rest => ends_cons rfl rest).imp fun heq => ?_
    rw [List.forall₂_eq_eq_eq] at heq
    exact congrArg arr heq
  | .obj vs, .obj ws, h => by
    have hfields := ReadsOff.join (readsOff_fields h)
    rw [← renderFields_eq_map, ← renderFields_eq_map] at hfields
    refine ((hfields.behind "\x7b").closed "\x7d" fun rest => ends_cons rfl rest).imp
      fun heq => ?_
    rw [List.forall₂_eq_eq_eq] at heq
    exact congrArg obj heq

theorem readsOff_items : ∀ {vs ws : List Json}, itemsEq vs ws = true →
    List.Forall₂ (fun v w => ReadsOff v.render w.render (v = w)) vs ws
  | [], [], _ => .nil
  | _ :: _, _ :: _, h =>
    have h := Bool.and_eq_true_iff.mp h
    .cons (readsOff_render h.1) (readsOff_items h.2)

theorem readsOff_fields : ∀ {vs ws : List (String × Json)}, fieldsEq vs ws = true →
    List.Forall₂ (fun f g => ReadsOff (renderField f) (renderField g) (f = g)) vs ws
  | [], [], _ => .nil
  | (_, _) :: _, (_, _) :: _, h => by
    obtain ⟨rfl, hvalue, hrest⟩ := fieldsEq_cons_iff.mp h
    refine .cons ?_ (readsOff_fields hrest)
    exact ((readsOff_render hvalue).behind _).imp fun heq => congrArg _ heq

end

/-- **Equal values are printed alike only if they are one value.** -/
theorem eq_of_render {v w : Json} (h : v.strictEq w = true) (hrender : v.render = w.render) :
    v = w :=
  (readsOff_render h).of_eq hrender

end Json

end DocumentRules
