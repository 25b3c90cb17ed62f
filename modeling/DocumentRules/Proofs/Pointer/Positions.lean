import DocumentRules.Proofs.Pointer.Lens
import Mathlib.Algebra.Group.Nat.Defs

/-!
# Positions of an array and the tokens that reach them

An array has positions, and a step into it takes a token. Every position is reached, by the decimal
text of its number, and by no other token: no zero in front, no sign, no second spelling of a large
number (`Pointer.positions_have_one_token`). Locality of writes and the points of the elements that
a rule goes through rest on this.

Which position a step has taken cannot be read off the element alone, since an array may hold the
same value twice. `Json.LeadsTo` asks for it in the only way there is: the token gives the element
that stands there, whatever the elements of the array are.

An index may be of any length, but a program reads it into a machine word (`wordOf?`) and gives up
if it does not fit. No step is lost by that, as long as the positions of the array fit the word.
-/

set_option autoImplicit false

namespace DocumentRules

/-- The token leads to position `i` of an array of length `n`, whatever its elements are. -/
def Json.LeadsTo (token : String) (n i : Nat) : Prop :=
  i < n ∧ ∀ items : List Json, items.length = n → (Json.arr items).step? token = items[i]?

namespace Json

variable {items : List Json} {token : String} {value : Json} {n i : Nat}

/-- A step into an array takes a position that the array has. -/
theorem step?_arr_eq_some_iff :
    (arr items).step? token = some value ↔
      ∃ i : Nat, token = toString i ∧ items[i]? = some value := by
  constructor
  · intro h
    cases hi : Pointer.index? token with
    | none => simp [step?, hi] at h
    | some i =>
      rw [step?_arr hi] at h
      exact ⟨i, Pointer.index?_eq_some_iff.mp hi, h⟩
  · intro h
    obtain ⟨i, htoken, hvalue⟩ := h
    rw [htoken, step?_arr_toString]
    exact hvalue

theorem leadsTo_toString (h : i < n) : LeadsTo (toString i) n i :=
  ⟨h, fun items _ => step?_arr_toString items i⟩

/-- The token of a position, found out in the array whose elements are its positions. -/
theorem LeadsTo.eq_toString (h : LeadsTo token n i) : token = toString i := by
  have hlt : i < n := h.1
  have hstep := h.2 ((List.range n).map fun j : Nat => ofInt j) (by simp)
  have helement : ((List.range n).map fun j : Nat => ofInt j)[i]? = some (ofInt i) := by
    simp [hlt]
  rw [helement, step?_arr_eq_some_iff] at hstep
  obtain ⟨j, htoken, hj⟩ := hstep
  have hji : (j : Int) = i := by
    simp only [List.getElem?_map, Option.map_eq_some_iff] at hj
    obtain ⟨k, hk, hvalue⟩ := hj
    have hkj : k = j := by
      have hrange := (List.getElem?_eq_some_iff.mp hk).2
      rw [List.getElem_range] at hrange
      exact hrange.symm
    rw [← hkj]
    simpa [ofInt] using hvalue
  rw [htoken, Int.ofNat_inj.mp hji]

end Json

namespace Pointer

open Json (LeadsTo)

variable {token : String} {width : Nat}

theorem isIndex_iff : isIndex token = true ↔ ∃ i : Nat, token = toString i := by
  rw [isIndex, Option.isSome_iff_exists]
  exact exists_congr fun i => index?_eq_some_iff

/-! ## Reading into a machine word -/

/-- The text behind an optional plus. -/
def behindPlus : List Char → List Char
  | '+' :: rest => rest
  | cs => cs

/-- The number of a text of digits, a plus in front allowed, if it fits a word of `width` bits. -/
def wordOf? (width : Nat) (token : String) : Option Nat :=
  let digits := behindPlus token.toList
  let value := Nat.ofDigitChars 10 digits 0
  if digits ≠ [] ∧ digits.all Char.isDigit = true ∧ value < 2 ^ width then some value else none

theorem wordOf?_toString (width i : Nat) :
    wordOf? width (toString i) = if i < 2 ^ width then some i else none := by
  have hlist : (toString i).toList = Nat.toDigits 10 i := by
    rw [Nat.toString_eq_repr, Nat.toList_repr]
  have hdigit : ∀ c ∈ Nat.toDigits 10 i, c.isDigit = true := fun c hc =>
    Nat.isDigit_of_mem_toDigits (by decide) (by decide) hc
  have hall : (Nat.toDigits 10 i).all Char.isDigit = true := List.all_eq_true.mpr hdigit
  have hbody : behindPlus (toString i).toList = Nat.toDigits 10 i := by
    rw [hlist]
    unfold behindPlus
    split
    · next rest hplus =>
      have hsign : '+'.isDigit = true := hdigit '+' (by simp [hplus])
      exact absurd hsign (by decide)
    · rfl
  unfold wordOf?
  dsimp only
  rw [hbody, Nat.ofDigitChars_ten_toDigits]
  simp [Nat.toDigits_ne_nil, hall]

/-- In an array whose positions fit the word, a step may read its index into the word. -/
theorem step?_arr_eq_word {items : List Json} (h : items.length ≤ 2 ^ width) (token : String) :
    (Json.arr items).step? token =
      if isIndex token = true then (wordOf? width token).bind fun i => items[i]? else none := by
  by_cases hindex : isIndex token = true
  · obtain ⟨i, rfl⟩ := isIndex_iff.mp hindex
    rw [if_pos hindex, Json.step?_arr_toString, wordOf?_toString]
    by_cases hfits : i < 2 ^ width
    · rw [if_pos hfits, Option.bind_some]
    · rw [if_neg hfits, Option.bind_none]
      exact List.getElem?_eq_none (by omega)
  · rw [if_neg hindex]
    cases hstep : (Json.arr items).step? token with
    | none => rfl
    | some value =>
      obtain ⟨i, htoken, -⟩ := Json.step?_arr_eq_some_iff.mp hstep
      exact absurd (isIndex_iff.mpr ⟨i, htoken⟩) hindex

/-! ## One token for each position -/

/-- **Each position has one token.** A token is an index if it is the decimal text of a natural
number. A step that gives an element has taken a position of the array, two tokens for one
position are equal, and the decimal text of each position leads to it. Reading the index into a
machine word loses none. -/
theorem positions_have_one_token :
    (∀ token, isIndex token = true ↔ ∃ i : Nat, token = toString i) ∧
      ∀ items : List Json,
        (∀ token value, (Json.arr items).step? token = some value →
          ∃ i, LeadsTo token items.length i ∧ items[i]? = some value) ∧
        (∀ token other i, LeadsTo token items.length i → LeadsTo other items.length i →
          token = other) ∧
        (∀ i, i < items.length →
          LeadsTo (toString i) items.length i ∧ (Json.arr items).step? (toString i) = items[i]?) ∧
        ∀ width token, items.length ≤ 2 ^ width →
          (Json.arr items).step? token =
            if isIndex token = true then (wordOf? width token).bind fun i => items[i]?
            else none := by
  refine ⟨fun token => isIndex_iff, fun items => ⟨?_, ?_, ?_, ?_⟩⟩
  · intro token value h
    obtain ⟨i, htoken, hvalue⟩ := Json.step?_arr_eq_some_iff.mp h
    rw [htoken]
    exact ⟨i, Json.leadsTo_toString (List.getElem?_eq_some_iff.mp hvalue).1, hvalue⟩
  · intro token other i h hother
    rw [h.eq_toString, hother.eq_toString]
  · intro i h
    exact ⟨Json.leadsTo_toString h, Json.step?_arr_toString items i⟩
  · intro width token h
    exact step?_arr_eq_word h token

/-- The second of two equal elements, and an index beyond a word of eight bits. -/
theorem twins_second :
    (1 < [Json.null, .null].length ∧ LeadsTo "1" 2 1) ∧
      ((Json.arr [.null, .null]).step? "1" = some .null ∧
        ∃ i, LeadsTo "1" 2 i ∧ [Json.null, .null][i]? = some .null) ∧
      (∀ token, LeadsTo token 2 1 → LeadsTo "1" 2 1 → token = "1") ∧
      [Json.null, .null].length ≤ 2 ^ 8 ∧ (Json.arr [.null, .null]).step? "256" = none := by
  obtain ⟨hsteps, hone, hreach, hword⟩ := positions_have_one_token.2 [Json.null, .null]
  have hsecond := hreach 1 (by decide)
  refine ⟨⟨by decide, hsecond.1⟩, ⟨rfl, hsteps "1" .null rfl⟩, ?_, by decide, ?_⟩
  · intro token h h'
    exact hone token "1" 1 h h'
  · rw [hword 8 "256" (by decide)]
    rfl

end Pointer

end DocumentRules
