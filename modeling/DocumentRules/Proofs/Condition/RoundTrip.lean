import DocumentRules.Condition.Parser
import DocumentRules.Proofs.Fields
import DocumentRules.Proofs.Operator
import Mathlib.Logic.Relation

/-!
# Conditions come back from their spelling

Every condition comes back from the document that spells it, without exception. The parser reads an
object through `List.lookup`, so the order that `Table.ofEntries` puts the fields in does not
matter; and a comparison with nothing has no field to read it back from, while one with null has.

A document that is refused has one of two faults. Either its form is wrong, or some check in it has
an operator that is none of checks. *In it* means where the parser comes to: it reads the checks of
a condition in order and stops at the first one that fails, and it reads the condition of a search
only after its path. `Check.Reads` is one such step, and `Check.ofJson_eq_error` says that a failure
either arises here or one step further on. The chain of steps to the refused check follows by
induction on the document, which every step makes smaller.
-/

set_option autoImplicit false

namespace DocumentRules

/-! ## Nested checks, by their field -/

namespace Check

variable {fields : List (String × Json)} {fault : Fault}

theorem checksAt_eq (key : String) (fields : List (String × Json)) :
    checksAt key fields =
      match fields.lookup key with
      | some (.arr items) => some (listOfJson items)
      | _ => none := by
  induction fields with
  | nil => rfl
  | cons field rest ih =>
    obtain ⟨k, doc⟩ := field
    rw [List.lookup_cons]
    cases hk : key == k with
    | true => cases doc <;> simp [checksAt, hk]
    | false => cases doc <;> simp [checksAt, hk, ih]

theorem conditionAt_eq (key : String) (fields : List (String × Json)) :
    conditionAt key fields = (fields.lookup key).map Condition.ofJson := by
  induction fields with
  | nil => rfl
  | cons field rest ih =>
    obtain ⟨k, doc⟩ := field
    rw [List.lookup_cons]
    cases hk : key == k with
    | true => simp [conditionAt, hk, Condition.ofJson]
    | false => simp [conditionAt, hk, ih]

theorem checkAt_eq (key : String) (fields : List (String × Json)) :
    checkAt key fields = (fields.lookup key).map ofJson := by
  induction fields with
  | nil => rfl
  | cons field rest ih =>
    obtain ⟨k, doc⟩ := field
    rw [List.lookup_cons]
    cases hk : key == k with
    | true => simp [checkAt, hk]
    | false => simp [checkAt, hk, ih]

end Check

/-! ## There and back -/

@[simp] theorem checkOperatorOf_symbol {α : Type} [Operator α] [LawfulOperator α] (operator : α) :
    checkOperatorOf α (Operator.symbol operator) = .ok operator := by
  rw [checkOperatorOf, Operator.ofSymbol?_symbol]

@[simp] theorem Value.ofOption_toOption (value : Value) : ofOption value.toOption = value := by
  cases value <;> rfl

section Reading

variable {fields : List (String × Json)} {nested : NestedChecks} {path : String}

theorem checkOfFields_nested {operator : Connective} {doc : Json} {checks : List Check}
    (hoperator : fields.lookup "operator" = some (.str (Operator.symbol operator)))
    (hchecks : fields.lookup "checks" = some doc) (hparsed : nested.checks = some (.ok checks)) :
    checkOfFields fields nested = .ok (.nested (.mk operator checks)) := by
  have hkind : OperatorKind.ofSymbol? (Operator.symbol operator) = some .connective :=
    OperatorKind.ofSymbol?_of_member rfl operator
  simp only [checkOfFields, Fields.text?_eq_some_iff.mpr hoperator, ok_bind, hkind,
    checkOperatorOf_symbol, checksOf, hchecks, hparsed]
  rfl

theorem checkOfFields_compare {operator : Comparison} {expected : Value}
    (hoperator : fields.lookup "operator" = some (.str (Operator.symbol operator)))
    (hpath : fields.lookup "path" = some (.str path))
    (hvalue : fields.lookup "value" = expected.toOption) :
    checkOfFields fields nested = .ok (.compare path operator expected) := by
  have hkind : OperatorKind.ofSymbol? (Operator.symbol operator) = some .comparison :=
    OperatorKind.ofSymbol?_of_member rfl operator
  simp only [checkOfFields, Fields.text?_eq_some_iff.mpr hoperator, ok_bind, hkind,
    checkOperatorOf_symbol, Fields.text_eq_ok_iff.mpr hpath, hvalue, Value.ofOption_toOption]
  rfl

theorem checkOfFields_contains {condition : Condition}
    (hoperator : fields.lookup "operator" = some (.str (Operator.symbol Membership.contains)))
    (hpath : fields.lookup "path" = some (.str path))
    (hparsed : nested.condition = some (.ok condition)) :
    checkOfFields fields nested = .ok (.contains path condition) := by
  have hkind : OperatorKind.ofSymbol? (Operator.symbol Membership.contains) = some .membership :=
    OperatorKind.ofSymbol?_of_member rfl Membership.contains
  simp only [checkOfFields, Fields.text?_eq_some_iff.mpr hoperator, ok_bind, hkind,
    Fields.text_eq_ok_iff.mpr hpath, hparsed, requiredPart]
  rfl

theorem checkOfFields_not {target : Check}
    (hoperator : fields.lookup "operator" = some (.str (Operator.symbol Inversion.not)))
    (hparsed : nested.target = some (.ok target)) :
    checkOfFields fields nested = .ok (.not target) := by
  have hkind : OperatorKind.ofSymbol? (Operator.symbol Inversion.not) = some .inversion :=
    OperatorKind.ofSymbol?_of_member rfl Inversion.not
  simp only [checkOfFields, Fields.text?_eq_some_iff.mpr hoperator, ok_bind, hkind,
    Operator.ofSymbol?_symbol, hparsed, requiredPart, if_true]
  rfl

end Reading

mutual

theorem Condition.check_ofJson_toJson (condition : Condition) :
    Check.ofJson condition.toJson = .ok (.nested condition) := by
  match condition with
  | .mk operator checks =>
    have hchecks : (Table.ofEntries [("operator", Json.str (Operator.symbol operator)),
        ("checks", .arr (Check.listToJson checks))]).lookup "checks" =
          some (.arr (Check.listToJson checks)) := by
      rw [Table.lookup_ofEntries]
      rfl
    refine checkOfFields_nested ?_ hchecks ?_
    · rw [Table.lookup_ofEntries]
      rfl
    · show Check.checksAt "checks" _ = _
      rw [Check.checksAt_eq, hchecks]
      exact congrArg some (Check.listOfJson_listToJson checks)
termination_by structural condition

/-- A check comes back from its spelling. -/
theorem Check.ofJson_toJson (check : Check) : Check.ofJson check.toJson = .ok check := by
  match check with
  | .nested condition => exact Condition.check_ofJson_toJson condition
  | .compare path operator expected =>
    refine checkOfFields_compare ?_ ?_ ?_
    · rw [Table.lookup_ofEntries]
      cases expected <;> rfl
    · rw [Table.lookup_ofEntries]
      cases expected <;> rfl
    · rw [Table.lookup_ofEntries]
      cases expected <;> rfl
  | .contains path condition =>
    refine checkOfFields_contains ?_ ?_ ?_
    · rw [Table.lookup_ofEntries]
      rfl
    · rw [Table.lookup_ofEntries]
      rfl
    · show Check.conditionAt "condition" _ = _
      rw [Check.conditionAt_eq, Table.lookup_ofEntries]
      show some (Check.ofJson condition.toJson >>= conditionOf condition.toJson) = _
      rw [Condition.check_ofJson_toJson condition]
      rfl
  | .not target =>
    refine checkOfFields_not ?_ ?_
    · rw [Table.lookup_ofEntries]
      rfl
    · show Check.checkAt "target" _ = _
      rw [Check.checkAt_eq, Table.lookup_ofEntries]
      show some (Check.ofJson target.toJson) = _
      rw [Check.ofJson_toJson target]
termination_by structural check

theorem Check.listOfJson_listToJson (checks : List Check) :
    Check.listOfJson (Check.listToJson checks) = .ok checks := by
  match checks with
  | [] => rfl
  | check :: rest =>
    rw [Check.listToJson, Check.listOfJson, Check.ofJson_toJson check, ok_bind,
      Check.listOfJson_listToJson rest, ok_bind]
    rfl
termination_by structural checks

end

/-- A condition comes back from its spelling. -/
theorem Condition.ofJson_toJson (condition : Condition) :
    Condition.ofJson condition.toJson = .ok condition := by
  rw [Condition.ofJson, condition.check_ofJson_toJson]
  rfl

/-! ## Documents that are refused -/

/-- The symbols that a check may have. -/
def Check.symbols : List String :=
  ["and", "or", "contains", "not", "=", ">", "<", ">=", "<="]

/-- Parsing the first document as a check comes to parsing the second one. -/
inductive Check.Reads : Json → Json → Prop where
  /-- The checks of a condition, as long as all before went well. -/
  | check {fields : List (String × Json)} {connective : Connective} {earlier later : List Json}
      {doc : Json} {checks : List Check} :
      fields.lookup "operator" = some (.str (Operator.symbol connective)) →
      fields.lookup "checks" = some (.arr (earlier ++ doc :: later)) →
      Check.listOfJson earlier = .ok checks → Reads (.obj fields) doc
  /-- The condition of a search in an array. -/
  | condition {fields : List (String × Json)} {path : String} {doc : Json} :
      fields.lookup "operator" = some (.str "contains") →
      fields.lookup "path" = some (.str path) →
      fields.lookup "condition" = some doc → Reads (.obj fields) doc
  /-- The check that is negated. -/
  | target {fields : List (String × Json)} {doc : Json} :
      fields.lookup "operator" = some (.str "not") →
      fields.lookup "target" = some doc → Reads (.obj fields) doc

theorem Json.sizeOf_lt_of_lookup {fields : List (String × Json)} {key : String} {doc : Json}
    (h : fields.lookup key = some doc) : sizeOf doc < sizeOf (Json.obj fields) := by
  induction fields with
  | nil => cases h
  | cons field rest ih =>
    obtain ⟨k, found⟩ := field
    rw [List.lookup_cons] at h
    cases hk : key == k with
    | true =>
      simp only [hk, Option.some.injEq] at h
      simp only [h, Json.obj.sizeOf_spec, List.cons.sizeOf_spec, Prod.mk.sizeOf_spec]
      omega
    | false =>
      simp only [hk] at h
      have hrest := ih h
      simp only [Json.obj.sizeOf_spec, List.cons.sizeOf_spec] at hrest ⊢
      omega

namespace Check

variable {fields : List (String × Json)} {doc inner : Json} {fault : Fault}

theorem Reads.sizeOf_lt (h : Reads doc inner) : sizeOf inner < sizeOf doc := by
  cases h with
  | @check fields connective earlier later _ checks _ hchecks _ =>
    have hmem : inner ∈ earlier ++ inner :: later :=
      List.mem_append_right earlier List.mem_cons_self
    have hitem := List.sizeOf_lt_of_mem hmem
    have hfield := Json.sizeOf_lt_of_lookup hchecks
    rw [Json.arr.sizeOf_spec] at hfield
    omega
  | condition _ _ hcondition => exact Json.sizeOf_lt_of_lookup hcondition
  | target _ htarget => exact Json.sizeOf_lt_of_lookup htarget

/-- A list of checks fails at the first check that fails. -/
theorem listOfJson_eq_error {docs : List Json} (h : listOfJson docs = .error fault) :
    ∃ earlier doc later checks, docs = earlier ++ doc :: later ∧
      listOfJson earlier = .ok checks ∧ ofJson doc = .error fault := by
  induction docs with
  | nil => exact absurd h (by simp [listOfJson])
  | cons doc rest ih =>
    rw [listOfJson, bind_eq_error] at h
    rcases h with hdoc | ⟨check, hcheck, hrest⟩
    · exact ⟨[], doc, rest, [], rfl, rfl, hdoc⟩
    · rw [bind_pure_eq_error] at hrest
      obtain ⟨earlier, bad, later, checks, rfl, hearlier, hbad⟩ := ih hrest
      refine ⟨doc :: earlier, bad, later, check :: checks, rfl, ?_, hbad⟩
      rw [listOfJson, hcheck, ok_bind, hearlier]
      rfl

/-- What can be wrong with a document itself: its form, or an operator that no check has. -/
inductive Refused : Json → Fault → Prop where
  | form (doc : Json) (cause : StructuralFault) : Refused doc (.structural cause)
  | operator {fields : List (String × Json)} {symbol : String} :
      fields.lookup "operator" = some (.str symbol) → symbol ∉ symbols →
      Refused (.obj fields) (.checkOperator symbol)

/-- The failure arises at the document, or at one that it reads. -/
def FailsFrom (doc : Json) (fault : Fault) : Prop :=
  Refused doc fault ∨ ∃ inner, Reads doc inner ∧ ofJson inner = .error fault

theorem failsFrom_of_structural (h : ∃ cause, fault = .structural cause) (doc : Json) :
    FailsFrom doc fault := by
  obtain ⟨cause, rfl⟩ := h
  exact .inl (.form doc cause)

theorem failsFrom_of_form {α : Type} {cause : StructuralFault}
    (h : (Except.error (.structural cause) : Except Fault α) = .error fault) (doc : Json) :
    FailsFrom doc fault :=
  failsFrom_of_structural ⟨cause, (Except.error.inj h).symm⟩ doc

theorem mem_symbols_iff {symbol : String} :
    symbol ∈ symbols ↔
      OperatorKind.ofSymbol? symbol ∈ [some .connective, some .comparison, some .membership] ∨
        symbol = "not" := by
  constructor
  · intro h
    have hall : ∀ symbol ∈ symbols, OperatorKind.ofSymbol? symbol ∈
        [some .connective, some .comparison, some .membership] ∨ symbol = "not" := by decide
    exact hall symbol h
  · intro h
    rcases h with hkind | rfl
    · simp only [List.mem_cons, List.not_mem_nil, or_false, OperatorKind.ofSymbol?_eq_some_iff]
        at hkind
      have hconnective : OperatorKind.connective.symbols ⊆ symbols := by decide
      have hcomparison : OperatorKind.comparison.symbols ⊆ symbols := by decide
      have hmembership : OperatorKind.membership.symbols ⊆ symbols := by decide
      rcases hkind with h | h | h
      · exact hconnective h
      · exact hcomparison h
      · exact hmembership h
    · decide

/-- An operator that no check has is refused, whatever else the object holds. -/
theorem checkOfFields_unknown {nested : NestedChecks} {symbol : String}
    (hoperator : fields.lookup "operator" = some (.str symbol)) (hsymbol : symbol ∉ symbols) :
    checkOfFields fields nested = .error (.checkOperator symbol) := by
  rw [mem_symbols_iff, not_or] at hsymbol
  obtain ⟨hkind, hnot⟩ := hsymbol
  simp only [checkOfFields, Fields.text?_eq_some_iff.mpr hoperator, ok_bind]
  -- The first three kinds are known, the fourth goes on with one symbol only.
  split
  · next h => exact absurd (by simp [h]) hkind
  · next h => exact absurd (by simp [h]) hkind
  · next h => exact absurd (by simp [h]) hkind
  · have hread : Operator.ofSymbol? symbol ≠ some Inversion.not :=
      fun h => hnot (Operator.symbol_of_ofSymbol? h).symm
    rw [if_neg hread]
  · rfl

theorem failsFrom_of_checksOf {connective : Connective}
    (hoperator : fields.lookup "operator" = some (.str (Operator.symbol connective)))
    (h : checksOf fields (checksAt "checks" fields) = .error fault) :
    FailsFrom (.obj fields) fault := by
  rw [checksAt_eq] at h
  unfold checksOf at h
  cases hfield : fields.lookup "checks" with
  | none =>
    rw [hfield] at h
    exact failsFrom_of_form h _
  | some found =>
    rw [hfield] at h
    cases found with
    | arr docs =>
      obtain ⟨earlier, doc, later, checks, rfl, hearlier, hdoc⟩ := listOfJson_eq_error h
      exact .inr ⟨doc, .check hoperator hfield hearlier, hdoc⟩
    | _ => exact failsFrom_of_form h _

theorem failsFrom_of_condition {path : String}
    (hoperator : fields.lookup "operator" = some (.str "contains"))
    (hpath : fields.lookup "path" = some (.str path))
    (h : requiredPart "Array check" "condition" (conditionAt "condition" fields) = .error fault) :
    FailsFrom (.obj fields) fault := by
  rw [conditionAt_eq] at h
  cases hfield : fields.lookup "condition" with
  | none =>
    rw [hfield] at h
    exact failsFrom_of_form h _
  | some doc =>
    rw [hfield] at h
    have hcondition : (ofJson doc >>= conditionOf doc) = .error fault := h
    rw [bind_eq_error] at hcondition
    rcases hcondition with hdoc | ⟨check, -, hcheck⟩
    · exact .inr ⟨doc, .condition hoperator hpath hfield, hdoc⟩
    · cases check with
      | nested condition => exact absurd hcheck (by simp [conditionOf])
      | _ => exact failsFrom_of_form hcheck _

theorem failsFrom_of_target (hoperator : fields.lookup "operator" = some (.str "not"))
    (h : requiredPart "Inversion check" "target" (checkAt "target" fields) = .error fault) :
    FailsFrom (.obj fields) fault := by
  rw [checkAt_eq] at h
  cases hfield : fields.lookup "target" with
  | none =>
    rw [hfield] at h
    exact failsFrom_of_form h _
  | some doc =>
    rw [hfield] at h
    exact .inr ⟨doc, .target hoperator hfield, h⟩

theorem failsFrom_of_known {symbol : String}
    (hoperator : fields.lookup "operator" = some (.str symbol)) (hknown : symbol ∈ symbols)
    (h : ofJson (.obj fields) = .error fault) : FailsFrom (.obj fields) fault := by
  simp only [ofJson, checkOfFields, Fields.text?_eq_some_iff.mpr hoperator, ok_bind] at h
  rcases mem_symbols_iff.mp hknown with hkind | rfl
  · simp only [List.mem_cons, List.not_mem_nil, or_false] at hkind
    rcases hkind with hkind | hkind | hkind
    · obtain ⟨connective, rfl⟩ := OperatorKind.exists_operator (α := Connective) hkind rfl
      simp only [hkind, checkOperatorOf_symbol, ok_bind, bind_pure_eq_error] at h
      exact failsFrom_of_checksOf hoperator h
    · obtain ⟨comparison, rfl⟩ := OperatorKind.exists_operator (α := Comparison) hkind rfl
      simp only [hkind, checkOperatorOf_symbol, ok_bind, bind_pure_eq_error] at h
      exact failsFrom_of_structural (Fields.text_eq_error h) _
    · obtain ⟨operator, rfl⟩ := OperatorKind.exists_operator (α := Membership) hkind rfl
      cases operator
      simp only [hkind] at h
      rw [bind_eq_error] at h
      rcases h with hpath | ⟨path, hpath, hcondition⟩
      · exact failsFrom_of_structural (Fields.text_eq_error hpath) _
      · rw [bind_pure_eq_error] at hcondition
        exact failsFrom_of_condition hoperator (Fields.text_eq_ok_iff.mp hpath) hcondition
  · have htarget : (requiredPart "Inversion check" "target" (checkAt "target" fields) >>=
        fun target => pure (Check.not target)) = .error fault := h
    exact failsFrom_of_target hoperator (bind_pure_eq_error.mp htarget)

/-- **One step of a failure**: it arises at the document, or at one that it reads. -/
theorem ofJson_eq_error (h : ofJson doc = .error fault) : FailsFrom doc fault := by
  match doc with
  | .null | .bool _ | .num _ | .str _ | .arr _ =>
    exact failsFrom_of_form h _
  | .obj fields =>
    have hobject := h
    rw [ofJson, checkOfFields, bind_eq_error] at hobject
    rcases hobject with hread | ⟨read, hread, hobject⟩
    · exact failsFrom_of_structural (Fields.text?_eq_error hread) _
    cases read with
    | none => exact failsFrom_of_form hobject _
    | some symbol =>
      have hoperator := Fields.text?_eq_some_iff.mp hread
      by_cases hknown : symbol ∈ symbols
      · exact failsFrom_of_known hoperator hknown h
      · rw [ofJson, checkOfFields_unknown hoperator hknown] at h
        rw [← Except.error.inj h]
        exact .inl (.operator hoperator hknown)

/-- A failure arises at some document that parsing comes to. -/
theorem refused_of_ofJson (doc : Json) {fault : Fault} (h : ofJson doc = .error fault) :
    ∃ node, Relation.ReflTransGen Reads doc node ∧ Refused node fault := by
  rcases ofJson_eq_error h with hrefused | ⟨inner, hreads, hinner⟩
  · exact ⟨doc, .refl, hrefused⟩
  · obtain ⟨node, hchain, hrefused⟩ := refused_of_ofJson inner hinner
    exact ⟨node, .head hreads hchain, hrefused⟩
termination_by sizeOf doc
decreasing_by exact hreads.sizeOf_lt

end Check

/-- **Every condition comes back from its spelling**, and a document that is no condition is refused
for its form or for the operator of a check that parsing comes to. -/
theorem Condition.read_back_and_refused :
    (∀ condition : Condition, Condition.ofJson condition.toJson = .ok condition) ∧
      ∀ (doc : Json) (fault : Fault), Condition.ofJson doc = .error fault →
        (∃ cause, fault = .structural cause) ∨
          ∃ symbol fields, fault = .checkOperator symbol ∧
            Relation.ReflTransGen Check.Reads doc (.obj fields) ∧
            fields.lookup "operator" = some (.str symbol) ∧
            symbol ∉ ["and", "or", "contains", "not", "=", ">", "<", ">=", "<="] := by
  refine ⟨Condition.ofJson_toJson, ?_⟩
  intro doc fault h
  rw [Condition.ofJson, bind_eq_error] at h
  rcases h with hdoc | ⟨check, -, hcheck⟩
  · obtain ⟨node, hchain, hrefused⟩ := Check.refused_of_ofJson doc hdoc
    cases hrefused with
    | form _ cause => exact .inl ⟨cause, rfl⟩
    | operator hoperator hsymbol => exact .inr ⟨_, _, rfl, hchain, hoperator, hsymbol⟩
  · cases check with
    | nested condition => exact absurd hcheck (by simp [conditionOf])
    | _ => exact .inl ⟨_, (Except.error.inj hcheck).symm⟩

/-- The refused check stands below a negation, behind a check that is fine. -/
theorem Condition.belowNegation_refused :
    let fine : Json := .obj [("operator", .str "="), ("path", .str "a")]
    let negated : Json := .obj [("operator", .str "not"), ("target", .obj [("operator", .str "~")])]
    let doc : Json := .obj [("checks", .arr [fine, negated]), ("operator", .str "or")]
    Condition.ofJson doc = .error (.checkOperator "~") ∧
      ∃ fields, Relation.ReflTransGen Check.Reads doc (.obj fields) ∧
        fields.lookup "operator" = some (.str "~") := by
  intro fine negated doc
  have hrefused : Condition.ofJson doc = .error (.checkOperator "~") := rfl
  refine ⟨hrefused, ?_⟩
  rcases Condition.read_back_and_refused.2 doc _ hrefused with
    ⟨cause, hform⟩ | ⟨symbol, fields, hfault, hchain, hoperator, -⟩
  · exact absurd hform (by simp)
  · rw [Fault.checkOperator.injEq] at hfault
    rw [hfault]
    exact ⟨fields, hchain, hoperator⟩

end DocumentRules
