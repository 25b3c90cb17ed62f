import DocumentRules.Proofs.Evaluation.Step

/-!
# How a group is settled

A group runs its rules in order until one of them decides it. All of them are given one value and
one point, but they share the session: a rule that is passed may write and may switch to another
document, and the next rule starts where it ended. So which rules are reached is a matter of the
run, and `Rule.Undecided` is the part of it that has come to no decision: some rules, each of which
has answered without deciding, and the sessions before the first and after the last of them.

What stands behind such rules is decided by what comes next, and by nothing behind that
(`Rule.runGroup_append`). A run of a group is therefore one of three: it is decided by a rule behind
undecided ones, it fails in one, or it has none left (`Rule.runGroup_split`). In none of them does a
rule that has not been reached play a part (`Rule.group_settled`).
-/

set_option autoImplicit false

namespace DocumentRules

/-! ## Rules that are passed -/

section

variable (operator : Connective) (point : Option Point) (cascade : Value)

/-- The rules answer one after another, each in the session that the one before it has left, and no
answer decides the group. -/
inductive Rule.Undecided : List Rule → Session → Session → Prop where
  | nil (s : Session) : Undecided [] s s
  | cons {rule : Rule} {rest : List Rule} {s t u : Session} {o : Outcome}
      (answer : (rule.run point cascade).on s = (.ok o, t))
      (passed : o.value.truthy ≠ operator.deciding) (others : Undecided rest t u) :
      Undecided (rule :: rest) s u

end

namespace Rule

variable {operator : Connective} {point : Option Point} {cascade : Value} {rule : Rule}
  {rules before rest : List Rule} {s t : Session}

/-! ## One rule of a group -/

theorem runGroup_of_answer {o : Outcome} (h : (rule.run point cascade).on s = (.ok o, t)) :
    (runGroup (rule :: rest) operator point cascade).on s =
      if o.value.truthy = operator.deciding then (.ok operator.deciding, t)
      else (runGroup rest operator point cascade).on t := by
  rw [runGroup, Run.on_bind, h]
  by_cases hdecides : o.value.truthy = operator.deciding
  · simp only [hdecides, beq_self_eq_true, if_true, Run.on_pure]
  · have hpassed : (o.value.truthy == operator.deciding) = false := beq_false_of_ne hdecides
    simp only [hpassed, hdecides, Bool.false_eq_true, if_false]

theorem runGroup_of_fault {fault : Fault}
    (h : (rule.run point cascade).on s = (.error fault, t)) :
    (runGroup (rule :: rest) operator point cascade).on s = (.error fault, t) := by
  rw [runGroup, Run.on_bind, h]

/-! ## All of them -/

/-- Behind rules that are passed, the group goes on as if it began there. -/
theorem runGroup_append (h : Undecided operator point cascade before s t) (rest : List Rule) :
    (runGroup (before ++ rest) operator point cascade).on s =
      (runGroup rest operator point cascade).on t := by
  induction h with
  | nil s => rfl
  | cons answer passed _ ih =>
    rw [List.cons_append, runGroup_of_answer answer, if_neg passed]
    exact ih

/-- The rules of a group are all passed, or there is a first one that is not. -/
theorem runGroup_split (operator : Connective) (point : Option Point) (cascade : Value)
    (rules : List Rule) : ∀ s : Session,
      (∃ t, Undecided operator point cascade rules s t) ∨
        ∃ before rule rest t, rules = before ++ rule :: rest ∧
          Undecided operator point cascade before s t ∧
          ((∃ o u, (rule.run point cascade).on t = (.ok o, u) ∧
              o.value.truthy = operator.deciding) ∨
            ∃ fault u, (rule.run point cascade).on t = (.error fault, u)) := by
  induction rules with
  | nil =>
    intro s
    exact .inl ⟨s, .nil s⟩
  | cons first others ih =>
    intro s
    cases hfirst : (first.run point cascade).on s with
    | mk result t =>
    cases result with
    | error fault => exact .inr ⟨[], first, others, s, rfl, .nil s, .inr ⟨fault, t, hfirst⟩⟩
    | ok o =>
      by_cases hdecides : o.value.truthy = operator.deciding
      · exact .inr ⟨[], first, others, s, rfl, .nil s, .inl ⟨o, t, hfirst, hdecides⟩⟩
      · rcases ih t with ⟨u, hall⟩ | ⟨before, rule, rest, u, hsplit, hbefore, hrule⟩
        · exact .inl ⟨u, .cons hfirst hdecides hall⟩
        · rw [hsplit]
          exact .inr ⟨first :: before, rule, rest, u, rfl, .cons hfirst hdecides hbefore, hrule⟩

theorem run_group_on (operator : Connective) (rules : List Rule) (point : Option Point)
    (cascade : Value) (s : Session) :
    (run (.group operator rules) point cascade).on s =
      match (runGroup rules operator point cascade).on s with
      | (.ok verdict, t) => (.ok ⟨.ofBool verdict, point⟩, { t with current := s.current })
      | (.error fault, t) => (.error fault, t) := by
  rw [run, Run.on_bind, Run.on_inSameDocument]
  rcases (runGroup rules operator point cascade).on s with ⟨_ | _, t⟩ <;> rfl

/-- **A group is settled by the first rule that decides it.** An `and` is decided by a false answer
and an `or` by a true one. Behind rules that are passed, such a rule settles the group, whatever
rules stand behind it, those that would fail or write among them: the value, the documents, the
current document and the point are given without them. A group of which all rules are passed has the
other truth value. It fails only where a rule behind passed ones fails, and with the fault of that
rule. Whenever it succeeds, it hands back the point that it was handed, in the document that was
current. -/
theorem group_settled (operator : Connective) (point : Option Point) (cascade : Value)
    (s : Session) :
    (Connective.and.deciding = false ∧ Connective.or.deciding = true) ∧
    (∀ before decisive t o u, Undecided operator point cascade before s t →
      (run decisive point cascade).on t = (.ok o, u) → o.value.truthy = operator.deciding →
        ∀ rest, (run (.group operator (before ++ decisive :: rest)) point cascade).on s =
          (.ok ⟨.ofBool operator.deciding, point⟩, { u with current := s.current })) ∧
    (∀ rules t, Undecided operator point cascade rules s t →
      (run (.group operator rules) point cascade).on s =
        (.ok ⟨.ofBool (!operator.deciding), point⟩, { t with current := s.current })) ∧
    (∀ rules fault u, (run (.group operator rules) point cascade).on s = (.error fault, u) →
      ∃ before failing rest t, rules = before ++ failing :: rest ∧
        Undecided operator point cascade before s t ∧
        (run failing point cascade).on t = (.error fault, u)) ∧
    (∀ rules o u, (run (.group operator rules) point cascade).on s = (.ok o, u) →
      o.point = point ∧ u.current = s.current) := by
  refine ⟨⟨rfl, rfl⟩, ?_, ?_, ?_, ?_⟩
  · intro before decisive t o u hbefore hdecisive hdecides rest
    rw [run_group_on, runGroup_append hbefore, runGroup_of_answer hdecisive, if_pos hdecides]
  · intro rules t hrules
    have hend : (runGroup rules operator point cascade).on s = (.ok !operator.deciding, t) := by
      rw [← List.append_nil rules, runGroup_append hrules]
      rfl
    rw [run_group_on, hend]
  · intro rules fault u h
    rw [run_group_on] at h
    rcases runGroup_split operator point cascade rules s with
      ⟨t, hall⟩ | ⟨before, rule, rest, t, hsplit, hbefore, hrule⟩
    · rw [← List.append_nil rules, runGroup_append hall] at h
      cases h
    · rw [hsplit, runGroup_append hbefore] at h
      rcases hrule with ⟨o, v, hanswer, hdecides⟩ | ⟨fault', v, hfault⟩
      · rw [runGroup_of_answer hanswer, if_pos hdecides] at h
        cases h
      · rw [runGroup_of_fault hfault] at h
        cases h
        exact ⟨before, rule, rest, t, hsplit, hbefore, hfault⟩
  · intro rules o u h
    rw [run_group_on] at h
    split at h
    · cases h
      exact ⟨rfl, rfl⟩
    · cases h

/-- Looks at a field of document `B`, and notes in `A` what stands there. -/
def lookAndNote (field : String) : Rule :=
  .action (some ("B/" ++ field)) (.set "A/n" none)

end Rule

/-- Two documents, with `A` the current one and a note in it if there has been one. -/
def Session.noted (note : List (String × Json)) : Session where
  documents := ⟨"A", [("$vars", .obj []), ("A", .obj (("$id", .str "A") :: note)),
    ("B", .obj [("$id", .str "B"), ("f", .bool false), ("t", .bool true)])]⟩
  current := "A"

/-- The first rule is passed, but leaves a note and leads to `B`, where the second one finds what
decides the group, in an `or` and in an `and`. No rule behind them changes that, be it one that
leads up too far. -/
theorem Rule.lookAndNote_settled :
    (∃ t o u, Undecided .or none .undefined [lookAndNote "f"] (.noted []) t ∧
      (run (.path "/t") none .undefined).on t = (.ok o, u) ∧ t.current = "B" ∧
      o.value.truthy = true ∧
      ∀ rest,
        (run (.group .or (lookAndNote "f" :: .path "/t" :: rest)) none .undefined).on (.noted []) =
          (.ok ⟨.ofBool true, none⟩, .noted [("n", .bool false)])) ∧
    ∃ t o u, Undecided .and none .undefined [lookAndNote "t"] (.noted []) t ∧
      (run (.path "/f") none .undefined).on t = (.ok o, u) ∧ t.current = "B" ∧
      o.value.truthy = false ∧
      ∀ rest,
        (run (.group .and (lookAndNote "t" :: .path "/f" :: rest)) none .undefined).on (.noted []) =
          (.ok ⟨.ofBool false, none⟩, .noted [("n", .bool true)]) := by
  constructor
  · have hanswer : (run (lookAndNote "f") none .undefined).on (.noted []) =
        (.ok ⟨.ofBool false, some (Point.documentRoot.child "f")⟩,
          { Session.noted [("n", .bool false)] with current := "B" }) := rfl
    have hlook : Undecided .or none .undefined [lookAndNote "f"] (.noted [])
        { Session.noted [("n", .bool false)] with current := "B" } :=
      .cons hanswer Bool.false_ne_true (.nil _)
    have hdecisive : (run (.path "/t") none .undefined).on
        { Session.noted [("n", .bool false)] with current := "B" } =
          (.ok ⟨.ofBool true, some (Point.documentRoot.child "t")⟩,
            { Session.noted [("n", .bool false)] with current := "B" }) := rfl
    refine ⟨_, _, _, hlook, hdecisive, rfl, rfl, ?_⟩
    exact (Rule.group_settled .or none .undefined (.noted [])).2.1 [lookAndNote "f"] (.path "/t")
      _ _ _ hlook hdecisive rfl
  · have hanswer : (run (lookAndNote "t") none .undefined).on (.noted []) =
        (.ok ⟨.ofBool true, some (Point.documentRoot.child "t")⟩,
          { Session.noted [("n", .bool true)] with current := "B" }) := rfl
    have hlook : Undecided .and none .undefined [lookAndNote "t"] (.noted [])
        { Session.noted [("n", .bool true)] with current := "B" } :=
      .cons hanswer Bool.false_ne_true.symm (.nil _)
    have hdecisive : (run (.path "/f") none .undefined).on
        { Session.noted [("n", .bool true)] with current := "B" } =
          (.ok ⟨.ofBool false, some (Point.documentRoot.child "f")⟩,
            { Session.noted [("n", .bool true)] with current := "B" }) := rfl
    refine ⟨_, _, _, hlook, hdecisive, rfl, rfl, ?_⟩
    exact (Rule.group_settled .and none .undefined (.noted [])).2.1 [lookAndNote "t"] (.path "/f")
      _ _ _ hlook hdecisive rfl

end DocumentRules
