import DocumentRules.Proofs.Fields
import DocumentRules.Proofs.Json.Render
import DocumentRules.Proofs.Operator
import DocumentRules.Rule.Parser
import DocumentRules.Rule.Printer

/-!
# Rules come back from their spelling

A rule is spelled by `Rule.toJson` and read by `Rule.ofJson`. Two kinds of rules have no spelling of
their own: one with an empty path is spelled like one without, and a cast to something unknown that
is called like a known target is spelled like a cast to that target. All others are `Spellable`, and
they come back as they were.

Reading looks at an object through `List.lookup` only, so what has to be known of a spelling is what
each field holds (`Rule.lookup_action`). From there the proof follows the grammar: the operator
leads to the kind (`Action.ofSymbol?_symbol`), the kind to the fields, and the nested rules come
back by induction.

The other way round, `Rule.spellable_of_ofJson` follows the recursion of the reader. An empty path
is dropped there, and the name of an unknown target is a text that is none of the known ones, or a
printed value, which never looks like one of them.
-/

set_option autoImplicit false

namespace DocumentRules

/-! ## Rules that can be spelled -/

/-- A cast to something that casts do not know must not be called like one that they do. -/
def CastTarget.Spellable : CastTarget → Prop
  | .unsupported name => name ∉ ["string", "boolean", "number", "JSON"]
  | _ => True

mutual

/-- No path that the rule reads at, at any depth, is empty, and no cast has a misleading name. A set
may well write at the empty path, which it keeps. -/
def Rule.Spellable (rule : Rule) : Prop :=
  match rule with
  | .group _ rules => Rule.AllSpellable rules
  | .path path => path ≠ ""
  | .action path action => path ≠ some "" ∧ action.Spellable
termination_by structural rule

/-- `Rule.Spellable` for each of some rules. -/
def Rule.AllSpellable (rules : List Rule) : Prop :=
  match rules with
  | [] => True
  | rule :: rest => rule.Spellable ∧ Rule.AllSpellable rest
termination_by structural rules

/-- `Rule.Spellable` for an action. -/
def Action.Spellable (action : Action) : Prop :=
  match action with
  | .cast target => target.Spellable
  | .sort keys _ => Rule.AllSpellable keys
  | .inspect _ (some rules) => Rule.AllSpellable rules
  | .contains (some wanted) => wanted.Spellable
  | .set _ (some operand) => operand.Spellable
  | .binary _ operand => operand.Spellable
  | .standalone _ | .length | .slice _ _ | .splice _ _ _ | .inspect _ none
  | .aggregate _ | .contains none | .selfArithmetic _ | .set _ none => True
termination_by structural action

/-- `Rule.Spellable` for an operand. -/
def Operand.Spellable (operand : Operand) : Prop :=
  match operand with
  | .literal _ => True
  | .derived rules => Rule.AllSpellable rules
termination_by structural operand

end

/-! ## Fields of a spelling -/

theorem Rule.rulesAt_eq (key : String) (fields : List (String × Json)) :
    rulesAt key fields =
      match fields.lookup key with
      | some (.arr items) => some (listOfJson items)
      | _ => none := by
  induction fields with
  | nil => rfl
  | cons field rest ih =>
    obtain ⟨k, doc⟩ := field
    rw [List.lookup_cons]
    cases hk : key == k with
    | true => cases doc <;> simp [rulesAt, hk]
    | false => cases doc <;> simp [rulesAt, hk, ih]

theorem Rule.rulesAt_of_lookup {key : String} {fields : List (String × Json)} {items : List Json}
    {parsed : Except Fault (List Rule)} (h : fields.lookup key = some (.arr items))
    (hitems : listOfJson items = parsed) : rulesAt key fields = some parsed := by
  rw [rulesAt_eq, h, ← hitems]

theorem Rule.rulesAt_of_missing {key : String} {fields : List (String × Json)}
    (h : fields.lookup key = none) : rulesAt key fields = none := by
  rw [rulesAt_eq, h]

@[simp] theorem lookup_optionalField (key other : String) (value : Option Json) :
    (optionalField key value).lookup other = if other == key then value else none := by
  cases value with
  | none => simp [optionalField]
  | some value => cases h : other == key <;> simp [optionalField, List.lookup_cons, h]

@[simp] theorem reverse_optionalField (key : String) (value : Option Json) :
    (optionalField key value).reverse = optionalField key value := by
  cases value <;> rfl

/-- What stands in the object of an action: its own fields, its path, and its operator. -/
theorem Rule.lookup_action (symbol key : String) (path : Option Json) (own : List (String × Json)) :
    (Table.ofEntries (("operator", .str symbol) :: optionalField "path" path ++ own)).lookup key =
      (own.reverse.lookup key).or
        ((if key == "path" then path else none).or
          (if key == "operator" then some (.str symbol) else none)) := by
  rw [Table.lookup_ofEntries, List.cons_append, List.reverse_cons, List.reverse_append,
    reverse_optionalField, List.lookup_append, List.lookup_append, lookup_optionalField,
    Option.or_assoc]
  cases h : key == "operator" <;> simp [List.lookup_cons, h]

theorem Operand.lookup_toField {operand : Operand} {key : String}
    (hvalue : (key == "value") = false) (hrules : (key == "getValue") = false) :
    [operand.toField].lookup key = none := by
  cases operand <;> simp [toField, List.lookup_cons, hvalue, hrules]

/-- No action has a field of its own that is called like one of the fields that every rule has. -/
theorem Action.lookup_toFields (action : Action) {key : String}
    (h : key = "operator" ∨ key = "path") : action.toFields.reverse.lookup key = none := by
  have hother : ∀ own : String, own ≠ "operator" → own ≠ "path" → (key == own) = false := by
    intro own hoperator hpath
    rcases h with rfl | rfl
    · simpa using hoperator.symm
    · simpa using hpath.symm
  have hoperand : ∀ operand : Operand, [operand.toField].lookup key = none := fun operand =>
    operand.lookup_toField (hother "value" (by decide) (by decide))
      (hother "getValue" (by decide) (by decide))
  cases action with
  | standalone | length | aggregate | selfArithmetic => rfl
  | cast target => simp [toFields, List.lookup_cons, hother]
  | slice first last => simp [toFields, List.lookup_append, hother]
  | splice first deleted items => simp [toFields, List.lookup_append, hother]
  | sort keys comparison => simp [toFields, List.lookup_cons, hother]
  | inspect operator rules =>
    cases rules with
    | none => rfl
    | some rules => simp [toFields, List.lookup_cons, hother]
  | contains wanted =>
    cases wanted with
    | none => rfl
    | some wanted => exact hoperand wanted
  | set path operand =>
    cases operand with
    | none => simp [toFields, List.lookup_cons, hother]
    | some operand =>
      show ([operand.toField] ++ [("setPath", Json.str path)]).lookup key = none
      rw [List.lookup_append, hoperand]
      simp [List.lookup_cons, hother]
  | binary operator operand => exact hoperand operand

/-! ## Symbols of actions -/

/-- The kind of an action's operator. -/
def Action.kind : Action → OperatorKind
  | .standalone _ => .standalone
  | .cast _ => .cast
  | .length => .length
  | .slice _ _ => .slice
  | .splice _ _ _ => .splice
  | .sort _ _ => .sort
  | .inspect _ _ => .inspection
  | .aggregate _ => .aggregate
  | .contains _ => .membership
  | .selfArithmetic _ => .selfArithmetic
  | .set _ _ => .set
  | .binary (.comparison _) _ => .comparison
  | .binary (.inversion _) _ => .inversion
  | .binary (.arithmetic _) _ => .arithmetic

theorem Action.ofSymbol?_symbol (action : Action) :
    OperatorKind.ofSymbol? action.symbol = some action.kind := by
  rw [OperatorKind.ofSymbol?_eq_some_iff]
  cases action with
  | standalone operator => exact Operator.symbol_mem_symbols operator
  | cast | length | slice | splice | sort | set => exact List.mem_singleton_self _
  | inspect operator => exact Operator.symbol_mem_symbols operator
  | aggregate operator => exact Operator.symbol_mem_symbols operator
  | contains => exact Operator.symbol_mem_symbols Membership.contains
  | selfArithmetic operator => exact Operator.symbol_mem_symbols operator
  | binary operator =>
    cases operator with
    | comparison operator => exact Operator.symbol_mem_symbols operator
    | inversion operator => exact Operator.symbol_mem_symbols operator
    | arithmetic operator => exact Operator.symbol_mem_symbols operator

/-- No action has the operator of a group. -/
theorem Action.connective_symbol (action : Action) :
    (Operator.ofSymbol? action.symbol : Option Connective) = none := by
  rw [Operator.ofSymbol?_eq_none_iff]
  intro hmem
  have hkind : OperatorKind.ofSymbol? action.symbol = some .connective :=
    OperatorKind.ofSymbol?_eq_some_iff.mpr hmem
  rw [action.ofSymbol?_symbol, Option.some.injEq] at hkind
  unfold kind at hkind
  split at hkind <;> exact absurd hkind (by decide)

/-! ## Reading the fields -/

section Reading

variable {fields : List (String × Json)} {nested : NestedRules}

theorem CastTarget.ofField_name {target : CastTarget} (h : target.Spellable) :
    CastTarget.ofField (some (.str target.name)) = target := by
  cases target with
  | unsupported name =>
    simp only [Spellable, List.mem_cons, List.not_mem_nil, or_false, not_or] at h
    obtain ⟨htext, hboolean, hnumber, hdocument⟩ := h
    -- Only the last reading of a text is left, since the name is none of the four known ones.
    simp [ofField, CastTarget.name]
  | _ => rfl

theorem SortComparison.ofFields_symbol {comparison : SortComparison}
    (h : fields.lookup "comparisonOperator" = some (.str (Operator.symbol comparison))) :
    SortComparison.ofFields fields = .ok comparison := by
  simp only [SortComparison.ofFields, Fields.text?_eq_some_iff.mpr h, ok_bind,
    Operator.ofSymbol?_symbol]
  rfl

theorem operatorOf_bind {α β : Type} [Operator α] [LawfulOperator α] (operator : α)
    (f : α → Except Fault β) :
    (operatorOf α (Operator.symbol operator) >>= f) = f operator := by
  rw [operatorOf, Operator.ofSymbol?_symbol]
  rfl

theorem ruleOfFields_group {operator : Connective} {rules : List Rule}
    (hoperator : fields.lookup "operator" = some (.str (Operator.symbol operator)))
    (hrules : nested.members = some (.ok rules)) :
    ruleOfFields fields nested = .ok (.group operator rules) := by
  have hread : (some (Operator.symbol operator)).bind Operator.ofSymbol? = some operator :=
    Operator.ofSymbol?_symbol operator
  simp only [ruleOfFields, Fields.text?_eq_some_iff.mpr hoperator, hrules, ok_bind, hread]
  rfl

theorem ruleOfFields_path {path : String} (h : path ≠ "") :
    ruleOfFields [("path", .str path)] nested = .ok (.path path) := by
  have hoperator : [("path", Json.str path)].lookup "operator" = none := rfl
  have hpath : [("path", Json.str path)].lookup "path" = some (.str path) := rfl
  have hkept : (some path).filter (· != "") = some path := by simp [h]
  simp only [ruleOfFields, Fields.text?_eq_none_iff.mpr hoperator,
    Fields.text?_eq_some_iff.mpr hpath, ok_bind, hkept]
  rfl

theorem length_ne_one_of_lookup {first second : String} {a b : Json} (hne : first ≠ second)
    (hfirst : fields.lookup first = some a) (hsecond : fields.lookup second = some b) :
    fields.length ≠ 1 := by
  intro hlength
  obtain ⟨⟨key, doc⟩, rfl⟩ := List.length_eq_one_iff.mp hlength
  have hkey : ∀ {k : String} {v : Json}, [(key, doc)].lookup k = some v → k = key := by
    intro k v hk
    by_contra hdiffers
    have hno : (k == key) = false := by simpa using hdiffers
    simp [List.lookup_cons, hno] at hk
  exact hne ((hkey hfirst).trans (hkey hsecond).symm)

theorem ruleOfFields_action {path : Option String} {action : Action}
    (hoperator : fields.lookup "operator" = some (.str action.symbol))
    (hpath : fields.lookup "path" = path.map .str) (hne : path ≠ some "")
    (haction : actionOf action.symbol fields nested = .ok action) :
    ruleOfFields fields nested = .ok (.action path action) := by
  have hread : ((some action.symbol).bind Operator.ofSymbol? : Option Connective) = none :=
    action.connective_symbol
  cases path with
  | none =>
    simp only [ruleOfFields, Fields.text?_eq_some_iff.mpr hoperator, ok_bind, hread,
      Fields.text?_eq_none_iff.mpr hpath, haction]
    rfl
  | some path =>
    have hkept : (some path).filter (· != "") = some path := by
      simpa using hne
    have hlength : fields.length ≠ 1 := length_ne_one_of_lookup (by decide) hoperator hpath
    simp only [ruleOfFields, Fields.text?_eq_some_iff.mpr hoperator, ok_bind, hread,
      Fields.text?_eq_some_iff.mpr hpath, haction, hkept]
    split
    · next h => exact absurd h hlength
    · rfl

theorem rulesOrFault_ok {key : String} {doc : Json} (h : fields.lookup key = some doc)
    (rules : List Rule) : rulesOrFault fields key (some (.ok rules)) = .ok (some rules) := by
  simp only [rulesOrFault, h]
  rfl

/-- Without rules the operand is the literal value, if that is there. -/
theorem operandOf_value {value : Option Json} (hvalue : fields.lookup "value" = value)
    (hrules : fields.lookup "getValue" = none) (parsed : Option (Except Fault (List Rule))) :
    operandOf fields parsed = .ok (value.map .literal) := by
  simp only [operandOf, rulesOrFault, hrules, ok_bind, hvalue]
  rfl

theorem operandOf_derived {doc : Json} {rules : List Rule}
    (hrules : fields.lookup "getValue" = some doc) :
    operandOf fields (some (.ok rules)) = .ok (some (.derived rules)) := by
  rw [operandOf, rulesOrFault_ok hrules, ok_bind]
  rfl

theorem actionOf_sort {doc : Json} {keys : List Rule} {comparison : SortComparison}
    (hkeys : fields.lookup "getComparisonValue" = some doc)
    (hparsed : nested.sortKeys = some (.ok keys))
    (hcomparison : fields.lookup "comparisonOperator" = some (.str (Operator.symbol comparison))) :
    actionOf "sort" fields nested = .ok (.sort keys comparison) := by
  show (rulesOrFault fields "getComparisonValue" nested.sortKeys >>= fun keys =>
    SortComparison.ofFields fields >>= fun comparison =>
      pure (Action.sort (keys.getD []) comparison)) = _
  rw [hparsed, rulesOrFault_ok hkeys, ok_bind, SortComparison.ofFields_symbol hcomparison, ok_bind]
  rfl

theorem actionOf_inspect {operator : Inspection} {rules : Option (List Rule)}
    (hparsed : nested.members = rules.map .ok) :
    actionOf (Operator.symbol operator) fields nested = .ok (.inspect operator rules) := by
  have hkind : OperatorKind.ofSymbol? (Operator.symbol operator) = some .inspection :=
    (Action.inspect operator rules).ofSymbol?_symbol
  rw [actionOf, hkind, hparsed]
  refine (operatorOf_bind operator _).trans ?_
  cases rules <;> rfl

theorem actionOf_contains {wanted : Option Operand}
    (hwanted : operandOf fields nested.operand = .ok wanted) :
    actionOf (Operator.symbol Membership.contains) fields nested = .ok (.contains wanted) := by
  show (operandOf fields nested.operand >>= fun wanted => pure (Action.contains wanted)) = _
  rw [hwanted, ok_bind]
  rfl

theorem actionOf_set {path : String} {operand : Option Operand}
    (hpath : fields.lookup "setPath" = some (.str path))
    (hoperand : operandOf fields nested.operand = .ok operand) :
    actionOf "set" fields nested = .ok (.set path operand) := by
  show (Fields.text fields "setPath" "Set rule" >>= fun path =>
    operandOf fields nested.operand >>= fun written => pure (Action.set path written)) = _
  rw [Fields.text_eq_ok_iff.mpr hpath, ok_bind, hoperand, ok_bind]
  rfl

theorem actionOf_binary {operator : BinaryOperator} {operand : Operand}
    (hoperand : operandOf fields nested.operand = .ok (some operand)) :
    actionOf (Operator.symbol operator) fields nested = .ok (.binary operator operand) := by
  have hkind : OperatorKind.ofSymbol? (Operator.symbol operator) =
      some (Action.binary operator operand).kind :=
    (Action.binary operator operand).ofSymbol?_symbol
  rw [actionOf, hkind]
  -- The three kinds of operators with two operands are read alike.
  cases operator with
  | comparison | inversion | arithmetic =>
    refine (operatorOf_bind (α := BinaryOperator) _ _).trans ?_
    rw [hoperand]
    rfl

end Reading

/-! ## There and back -/

mutual

/-- A rule that can be spelled comes back from its spelling. -/
theorem Rule.ofJson_toJson (rule : Rule) (h : rule.Spellable) :
    Rule.ofJson rule.toJson = .ok rule := by
  match rule with
  | .group operator rules =>
    have hrules : (Table.ofEntries [("operator", Json.str (Operator.symbol operator)),
        ("rules", .arr (Rule.listToJson rules))]).lookup "rules" =
          some (.arr (Rule.listToJson rules)) := by
      rw [Table.lookup_ofEntries]
      rfl
    refine ruleOfFields_group ?_ ?_
    · rw [Table.lookup_ofEntries]
      rfl
    · exact Rule.rulesAt_of_lookup hrules (Rule.listOfJson_listToJson rules h)
  | .path path => exact ruleOfFields_path h
  | .action path action =>
    refine ruleOfFields_action ?_ ?_ h.1 (Action.actionOf_toFields action h.2 ?_)
    · rw [Rule.lookup_action, action.lookup_toFields (.inl rfl)]
      simp
    · rw [Rule.lookup_action, action.lookup_toFields (.inr rfl)]
      simp
    · intro key hkey
      rw [Rule.lookup_action]
      simp [hkey.1, hkey.2]
termination_by structural rule

theorem Rule.listOfJson_listToJson (rules : List Rule) (h : Rule.AllSpellable rules) :
    Rule.listOfJson (Rule.listToJson rules) = .ok rules := by
  match rules with
  | [] => rfl
  | rule :: rest =>
    rw [Rule.listToJson, Rule.listOfJson, Rule.ofJson_toJson rule h.1, ok_bind,
      Rule.listOfJson_listToJson rest h.2, ok_bind]
    rfl
termination_by structural rules

/-- An action comes back from any object that holds its fields beside the two of every rule. -/
theorem Action.actionOf_toFields (action : Action) (h : action.Spellable)
    {fields : List (String × Json)}
    (hfields : ∀ key, key ≠ "operator" ∧ key ≠ "path" →
      fields.lookup key = action.toFields.reverse.lookup key) :
    actionOf action.symbol fields ⟨Rule.rulesAt "rules" fields, Rule.rulesAt "getValue" fields,
      Rule.rulesAt "getComparisonValue" fields⟩ = .ok action := by
  match action with
  | .standalone operator =>
    rw [actionOf, (Action.standalone operator).ofSymbol?_symbol]
    exact operatorOf_bind operator fun o => pure (Action.standalone o)
  | .aggregate operator =>
    rw [actionOf, (Action.aggregate operator).ofSymbol?_symbol]
    exact operatorOf_bind operator fun o => pure (Action.aggregate o)
  | .selfArithmetic operator =>
    rw [actionOf, (Action.selfArithmetic operator).ofSymbol?_symbol]
    exact operatorOf_bind operator fun o => pure (Action.selfArithmetic o)
  | .length => rfl
  | .cast target =>
    have htarget : fields.lookup "castTo" = some (.str target.name) := hfields "castTo" (by simp)
    show Except.ok (Action.cast (CastTarget.ofField (fields.lookup "castTo"))) = _
    rw [htarget, CastTarget.ofField_name h]
  | .slice first last =>
    have hfirst : fields.lookup "startIndex" = first := by
      simpa [Action.toFields, List.lookup_append] using hfields "startIndex" (by simp)
    have hlast : fields.lookup "endIndex" = last := by
      simpa [Action.toFields, List.lookup_append] using hfields "endIndex" (by simp)
    rw [← hfirst, ← hlast]
    rfl
  | .splice first deleted items =>
    have hfirst : fields.lookup "startIndex" = first := by
      simpa [Action.toFields, List.lookup_append] using hfields "startIndex" (by simp)
    have hdeleted : fields.lookup "deleteCount" = deleted := by
      simpa [Action.toFields, List.lookup_append] using hfields "deleteCount" (by simp)
    have hitems : fields.lookup "itemsToAdd" = items := by
      simpa [Action.toFields, List.lookup_append] using hfields "itemsToAdd" (by simp)
    rw [← hfirst, ← hdeleted, ← hitems]
    rfl
  | .sort keys comparison =>
    have hkeys : fields.lookup "getComparisonValue" = some (.arr (Rule.listToJson keys)) :=
      hfields "getComparisonValue" (by simp)
    refine actionOf_sort hkeys ?_ (hfields "comparisonOperator" (by simp))
    exact Rule.rulesAt_of_lookup hkeys (Rule.listOfJson_listToJson keys h)
  | .inspect operator none =>
    have hrules : fields.lookup "rules" = none := hfields "rules" (by simp)
    exact actionOf_inspect (Rule.rulesAt_of_missing hrules)
  | .inspect operator (some rules) =>
    have hrules : fields.lookup "rules" = some (.arr (Rule.listToJson rules)) :=
      hfields "rules" (by simp)
    exact actionOf_inspect (Rule.rulesAt_of_lookup hrules (Rule.listOfJson_listToJson rules h))
  | .contains none =>
    exact actionOf_contains
      (operandOf_value (hfields "value" (by simp)) (hfields "getValue" (by simp)) _)
  | .contains (some wanted) =>
    have hvalue := hfields "value" (by simp)
    have hrules := hfields "getValue" (by simp)
    exact actionOf_contains (Operand.operandOf_toField wanted h hvalue hrules)
  | .set path none =>
    exact actionOf_set (hfields "setPath" (by simp))
      (operandOf_value (hfields "value" (by simp)) (hfields "getValue" (by simp)) _)
  | .set path (some operand) =>
    have hfield : ∀ key, (Action.set path (some operand)).toFields.reverse.lookup key =
        ([operand.toField].lookup key).or ([("setPath", Json.str path)].lookup key) := by
      intro key
      show ([operand.toField] ++ [("setPath", Json.str path)]).lookup key = _
      rw [List.lookup_append]
    have hpath : fields.lookup "setPath" = some (.str path) := by
      rw [hfields "setPath" (by simp), hfield, operand.lookup_toField (by simp) (by simp)]
      rfl
    have hvalue : fields.lookup "value" = [operand.toField].lookup "value" := by
      rw [hfields "value" (by simp), hfield]
      exact Option.or_none
    have hrules : fields.lookup "getValue" = [operand.toField].lookup "getValue" := by
      rw [hfields "getValue" (by simp), hfield]
      exact Option.or_none
    exact actionOf_set hpath (Operand.operandOf_toField operand h hvalue hrules)
  | .binary operator operand =>
    have hvalue := hfields "value" (by simp)
    have hrules := hfields "getValue" (by simp)
    exact actionOf_binary (Operand.operandOf_toField operand h hvalue hrules)
termination_by structural action

theorem Operand.operandOf_toField (operand : Operand) (h : operand.Spellable)
    {fields : List (String × Json)}
    (hvalue : fields.lookup "value" = [operand.toField].lookup "value")
    (hrules : fields.lookup "getValue" = [operand.toField].lookup "getValue") :
    operandOf fields (Rule.rulesAt "getValue" fields) = .ok (some operand) := by
  match operand with
  | .literal value => exact operandOf_value hvalue hrules _
  | .derived rules =>
    rw [Rule.rulesAt_of_lookup hrules (Rule.listOfJson_listToJson rules h)]
    exact operandOf_derived hrules
termination_by structural operand

end

/-! ## Rules that are read -/

/-- Whatever a cast names, the target can be spelled: a value that is no text is printed, and no
printed value is called like a target that casts know. -/
theorem CastTarget.spellable_ofField (value : Option Json) : (ofField value).Spellable := by
  have hprinted : ∀ doc : Json, doc.render ∉ ["string", "boolean", "number", "JSON"] := by
    intro doc hmem
    have hletter : StartsWith Char.isAlpha doc.render.toList := by
      simp only [List.mem_cons, List.not_mem_nil, or_false] at hmem
      rcases hmem with h | h | h | h <;> rw [h] <;> exact ⟨_, rfl, rfl⟩
    have hword := Json.render_mem_words hletter
    simp only [List.mem_cons, List.not_mem_nil, or_false] at hmem hword
    rcases hmem with h | h | h | h <;> rw [h] at hword <;> exact absurd hword (by decide)
  unfold ofField
  split
  · trivial
  · trivial
  · trivial
  · trivial
  · next name htext hboolean hnumber hdocument =>
    simp only [Spellable, List.mem_cons, List.not_mem_nil, or_false, not_or]
    exact ⟨htext, hboolean, hnumber, hdocument⟩
  · exact hprinted _
  · show "undefined" ∉ _
    decide

/-- Nested rules that can be spelled, as far as they were read. -/
def SpellableIfRead (parsed : Option (Except Fault (List Rule))) : Prop :=
  ∀ rules, parsed = some (.ok rules) → Rule.AllSpellable rules

section Read

variable {fields : List (String × Json)} {parsed : Option (Except Fault (List Rule))}

theorem spellable_of_rulesOrFault {key : String} {rules : List Rule} (h : SpellableIfRead parsed)
    (hread : rulesOrFault fields key parsed = .ok (some rules)) : Rule.AllSpellable rules := by
  unfold rulesOrFault at hread
  split at hread
  · exact absurd hread (by simp)
  · next result _ =>
    cases result with
    | error fault => exact absurd hread (by simp [Except.map])
    | ok found =>
      simp only [Except.map, Except.ok.injEq, Option.some.injEq] at hread
      exact h rules (by rw [hread])
  · exact absurd hread (by simp)

theorem spellable_of_operandOf {operand : Operand} (h : SpellableIfRead parsed)
    (hread : operandOf fields parsed = .ok (some operand)) : operand.Spellable := by
  unfold operandOf at hread
  obtain ⟨rules, hrules, hread⟩ := bind_eq_ok.mp hread
  cases rules with
  | some rules =>
    rw [pure_eq_ok, Option.some.injEq] at hread
    rw [← hread]
    exact spellable_of_rulesOrFault h hrules
  | none =>
    rw [pure_eq_ok, Option.map_eq_some_iff] at hread
    obtain ⟨value, -, rfl⟩ := hread
    trivial

theorem spellable_of_binary {symbol : String} {action : Action} (h : SpellableIfRead parsed)
    (hread : (operatorOf BinaryOperator symbol >>= fun operator =>
      operandOf fields parsed >>= fun operand =>
        match operand with
        | some operand => pure (Action.binary operator operand)
        | none => .error (.structural (.missingOperand symbol))) = .ok action) :
    action.Spellable := by
  obtain ⟨operator, -, hread⟩ := bind_eq_ok.mp hread
  obtain ⟨operand, hoperand, hread⟩ := bind_eq_ok.mp hread
  cases operand with
  | none => exact absurd hread (by simp)
  | some operand =>
    rw [pure_eq_ok] at hread
    rw [← hread]
    exact spellable_of_operandOf h hoperand

theorem Action.spellable_of_actionOf {symbol : String} {nested : NestedRules} {action : Action}
    (hmembers : SpellableIfRead nested.members) (hoperand : SpellableIfRead nested.operand)
    (hkeys : SpellableIfRead nested.sortKeys) (hread : actionOf symbol fields nested = .ok action) :
    action.Spellable := by
  cases hkind : OperatorKind.ofSymbol? symbol with
  | none =>
    rw [actionOf, hkind] at hread
    exact absurd hread (by simp)
  | some kind =>
    rw [actionOf, hkind] at hread
    cases kind with
    | connective => exact absurd hread (by simp)
    | comparison | inversion | arithmetic => exact spellable_of_binary hoperand hread
    | cast =>
      rw [← pure_eq_ok.mp hread]
      exact CastTarget.spellable_ofField _
    | length | slice | splice =>
      rw [← pure_eq_ok.mp hread]
      trivial
    | standalone | aggregate | selfArithmetic =>
      simp only [bind_eq_ok, pure_eq_ok] at hread
      obtain ⟨operator, -, rfl⟩ := hread
      trivial
    | sort =>
      simp only [bind_eq_ok, pure_eq_ok] at hread
      obtain ⟨keys, hfound, comparison, -, rfl⟩ := hread
      cases keys with
      | none => trivial
      | some keys => exact spellable_of_rulesOrFault hkeys hfound
    | inspection =>
      obtain ⟨operator, -, hread⟩ := bind_eq_ok.mp hread
      cases hrules : nested.members with
      | none =>
        rw [hrules] at hread
        rw [← pure_eq_ok.mp hread]
        trivial
      | some rules =>
        simp only [hrules, bind_eq_ok, pure_eq_ok] at hread
        obtain ⟨found, rfl, rfl⟩ := hread
        exact hmembers found hrules
    | membership =>
      simp only [bind_eq_ok, pure_eq_ok] at hread
      obtain ⟨wanted, hwanted, rfl⟩ := hread
      cases wanted with
      | none => trivial
      | some wanted => exact spellable_of_operandOf hoperand hwanted
    | set =>
      simp only [bind_eq_ok, pure_eq_ok] at hread
      obtain ⟨path, -, operand, hfound, rfl⟩ := hread
      cases operand with
      | none => trivial
      | some operand => exact spellable_of_operandOf hoperand hfound

theorem Rule.spellable_of_ruleOfFields {nested : NestedRules} {rule : Rule}
    (hmembers : SpellableIfRead nested.members) (hoperand : SpellableIfRead nested.operand)
    (hkeys : SpellableIfRead nested.sortKeys) (hread : ruleOfFields fields nested = .ok rule) :
    rule.Spellable := by
  have hkept : ∀ found : Option String, found.filter (· != "") ≠ some "" := by
    intro found h
    have hne := (Option.filter_eq_some_iff.mp h).2
    exact absurd hne (by decide)
  unfold ruleOfFields at hread
  obtain ⟨symbol, -, hread⟩ := bind_eq_ok.mp hread
  split at hread
  · next connective rules _ hrules =>
    simp only [bind_eq_ok, pure_eq_ok] at hread
    obtain ⟨found, rfl, rfl⟩ := hread
    exact hmembers found hrules
  · obtain ⟨found, -, hread⟩ := bind_eq_ok.mp hread
    dsimp only at hread
    split at hread
    · next path _ hpath _ =>
      rw [← pure_eq_ok.mp hread]
      intro hempty
      exact hkept found (by rw [hpath, hempty])
    · split at hread
      · exact absurd hread (by simp)
      · simp only [bind_eq_ok, pure_eq_ok] at hread
        obtain ⟨action, haction, rfl⟩ := hread
        exact ⟨hkept found, Action.spellable_of_actionOf hmembers hoperand hkeys haction⟩

end Read

mutual

/-- Every rule that is read can be spelled. -/
theorem Rule.spellable_of_ofJson (doc : Json) {rule : Rule} (h : Rule.ofJson doc = .ok rule) :
    rule.Spellable := by
  match doc with
  | .obj fields =>
    exact Rule.spellable_of_ruleOfFields (Rule.spellable_of_rulesAt "rules" fields)
      (Rule.spellable_of_rulesAt "getValue" fields)
      (Rule.spellable_of_rulesAt "getComparisonValue" fields) h
  | .null | .bool _ | .num _ | .str _ | .arr _ => exact absurd h (by simp [Rule.ofJson])
termination_by structural doc

theorem Rule.spellable_of_listOfJson (docs : List Json) {rules : List Rule}
    (h : Rule.listOfJson docs = .ok rules) : Rule.AllSpellable rules := by
  match docs with
  | [] =>
    rw [Rule.listOfJson, Except.ok.injEq] at h
    rw [← h]
    trivial
  | doc :: rest =>
    simp only [Rule.listOfJson, bind_eq_ok, pure_eq_ok] at h
    obtain ⟨rule, hrule, others, hothers, rfl⟩ := h
    exact ⟨Rule.spellable_of_ofJson doc hrule, Rule.spellable_of_listOfJson rest hothers⟩
termination_by structural docs

theorem Rule.spellable_of_rulesAt (key : String) (fields : List (String × Json)) :
    SpellableIfRead (Rule.rulesAt key fields) := by
  match fields with
  | [] => exact fun rules h => absurd h (by simp [Rule.rulesAt])
  | (k, doc) :: rest =>
    intro rules h
    cases hk : key == k with
    | true =>
      match doc with
      | .arr items =>
        simp only [Rule.rulesAt, hk, if_true, Option.some.injEq] at h
        exact Rule.spellable_of_listOfJson items h
      | .null | .bool _ | .num _ | .str _ | .obj _ => exact absurd h (by simp [Rule.rulesAt, hk])
    | false =>
      refine Rule.spellable_of_rulesAt key rest rules ?_
      cases doc <;> simpa [Rule.rulesAt, hk] using h
termination_by structural fields

end

/-! ## Spelling and reading -/

/-- **Reading undoes spelling**, for exactly the rules that can be spelled; and whatever document is
read, the rule can be spelled, so a rule that was accepted once is accepted again as it was. -/
theorem Rule.spellable_and_read_back :
    (∀ rule : Rule, rule.Spellable ↔ Rule.ofJson rule.toJson = .ok rule) ∧
      ∀ (doc : Json) (rule : Rule), Rule.ofJson doc = .ok rule →
        rule.Spellable ∧ Rule.ofJson rule.toJson = .ok rule := by
  refine ⟨fun rule => ⟨rule.ofJson_toJson, Rule.spellable_of_ofJson rule.toJson⟩, ?_⟩
  intro doc rule hread
  have hspellable : rule.Spellable := Rule.spellable_of_ofJson doc hread
  exact ⟨hspellable, rule.ofJson_toJson hspellable⟩

/-- The empty path is dropped, and null becomes the name of a target. -/
theorem Rule.castToNull_read_back :
    let cast : Json := .obj [("castTo", .null), ("operator", .str "cast"), ("path", .str "")]
    let doc : Json :=
      .obj [("operator", .str "or"), ("rules", .arr [.obj [("path", .str "a")], cast])]
    let rule : Rule := .group .or [.path "a", .action none (.cast (.unsupported "null"))]
    Rule.ofJson doc = .ok rule ∧ rule.Spellable ∧ Rule.ofJson rule.toJson = .ok rule := by
  intro cast doc rule
  have hread : Rule.ofJson doc = .ok rule := rfl
  exact ⟨hread, Rule.spellable_and_read_back.2 doc rule hread⟩

end DocumentRules
