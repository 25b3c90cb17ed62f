import DocumentRules.Rule.Basic
import Mathlib.Data.List.Nodup

/-!
# Symbols and operators

A symbol is read by searching: for the group it belongs to, and in the group for the member that it
spells. Two facts make the search an inverse of spelling. Each group lists all its members and
spells no two of them alike (`LawfulOperator`), so a member is found under its own symbol. And no
symbol is in two groups, so its kind is the one whose symbols it is among
(`OperatorKind.ofSymbol?_eq_some_iff`).
-/

set_option autoImplicit false

namespace DocumentRules

/-- A group that lists every member, under different symbols. -/
class LawfulOperator (α : Type) [Operator α] : Prop where
  mem_all : ∀ operator : α, operator ∈ (Operator.all : List α)
  nodup_symbols : (Operator.symbols α).Nodup

instance : LawfulOperator Comparison where
  mem_all operator := by cases operator <;> decide
  nodup_symbols := by decide

instance : LawfulOperator Inversion where
  mem_all operator := by cases operator <;> decide
  nodup_symbols := by decide

instance : LawfulOperator Membership where
  mem_all operator := by cases operator; decide
  nodup_symbols := by decide

instance : LawfulOperator Inspection where
  mem_all operator := by cases operator <;> decide
  nodup_symbols := by decide

instance : LawfulOperator Aggregate where
  mem_all operator := by cases operator <;> decide
  nodup_symbols := by decide

instance : LawfulOperator Connective where
  mem_all operator := by cases operator <;> decide
  nodup_symbols := by decide

instance : LawfulOperator Standalone where
  mem_all operator := by cases operator <;> decide
  nodup_symbols := by decide

instance : LawfulOperator SelfArithmetic where
  mem_all operator := by cases operator; decide
  nodup_symbols := by decide

instance : LawfulOperator Arithmetic where
  mem_all operator := by cases operator <;> decide
  nodup_symbols := by decide

instance : LawfulOperator SortOrder where
  mem_all operator := by cases operator <;> decide
  nodup_symbols := by decide

instance : LawfulOperator SortComparison where
  mem_all operator := by
    cases operator with
    | arithmetic operator =>
      exact List.mem_append_left _ (List.mem_map_of_mem (LawfulOperator.mem_all operator))
    | order order =>
      exact List.mem_append_right _ (List.mem_map_of_mem (LawfulOperator.mem_all order))
  nodup_symbols := by decide

instance : LawfulOperator BinaryOperator where
  mem_all operator := by
    cases operator with
    | comparison operator =>
      refine List.mem_append_left _ (List.mem_append_left _ ?_)
      exact List.mem_map_of_mem (LawfulOperator.mem_all operator)
    | inversion operator =>
      refine List.mem_append_left _ (List.mem_append_right _ ?_)
      exact List.mem_map_of_mem (LawfulOperator.mem_all operator)
    | arithmetic operator =>
      exact List.mem_append_right _ (List.mem_map_of_mem (LawfulOperator.mem_all operator))
  nodup_symbols := by decide

namespace Operator

variable {α : Type} [Operator α] {operator : α} {text : String}

theorem symbol_of_ofSymbol? (h : ofSymbol? text = some operator) : symbol operator = text := by
  have hfound := List.find?_some h
  simpa using hfound

theorem ofSymbol?_eq_none_iff : (ofSymbol? text : Option α) = none ↔ text ∉ symbols α := by
  simp [ofSymbol?, symbols, List.find?_eq_none]

theorem symbol_mem_symbols [LawfulOperator α] (operator : α) : symbol operator ∈ symbols α :=
  List.mem_map_of_mem (LawfulOperator.mem_all operator)

/-- A member is read from its own symbol. -/
@[simp] theorem ofSymbol?_symbol [LawfulOperator α] (operator : α) :
    ofSymbol? (symbol operator) = some operator := by
  cases h : (ofSymbol? (symbol operator) : Option α) with
  | none => exact absurd (symbol_mem_symbols operator) (ofSymbol?_eq_none_iff.mp h)
  | some found =>
    have hsame : symbol found = symbol operator := symbol_of_ofSymbol? h
    have hnodup : ((all : List α).map symbol).Nodup := LawfulOperator.nodup_symbols
    have hfound : found = operator := List.inj_on_of_nodup_map hnodup
      (LawfulOperator.mem_all found) (LawfulOperator.mem_all operator) hsame
    rw [hfound]

end Operator

namespace OperatorKind

theorem mem_all (kind : OperatorKind) : kind ∈ all := by
  cases kind <;> decide

/-- **The groups have no symbol in common**: the kind of a symbol is the one it is a symbol of. -/
theorem ofSymbol?_eq_some_iff {kind : OperatorKind} {symbol : String} :
    ofSymbol? symbol = some kind ↔ symbol ∈ kind.symbols := by
  constructor
  · intro h
    have hfound := List.find?_some h
    simpa using hfound
  · intro h
    have hdisjoint : ∀ kind ∈ all, ∀ symbol ∈ kind.symbols, ofSymbol? symbol = some kind := by
      decide
    exact hdisjoint kind (mem_all kind) symbol h

theorem ofSymbol?_of_member {α : Type} [Operator α] [LawfulOperator α] {kind : OperatorKind}
    (hsymbols : kind.symbols = Operator.symbols α) (operator : α) :
    ofSymbol? (Operator.symbol operator) = some kind :=
  ofSymbol?_eq_some_iff.mpr (hsymbols ▸ Operator.symbol_mem_symbols operator)

theorem exists_operator {α : Type} [Operator α] {symbol : String} {kind : OperatorKind}
    (hkind : ofSymbol? symbol = some kind) (hsymbols : kind.symbols = Operator.symbols α) :
    ∃ operator : α, Operator.symbol operator = symbol := by
  have hmem : symbol ∈ Operator.symbols α := hsymbols ▸ ofSymbol?_eq_some_iff.mp hkind
  obtain ⟨operator, -, hoperator⟩ := List.mem_map.mp hmem
  exact ⟨operator, hoperator⟩

end OperatorKind

end DocumentRules
