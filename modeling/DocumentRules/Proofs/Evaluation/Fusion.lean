import DocumentRules.Proofs.Evaluation.Blind
import DocumentRules.Proofs.Evaluation.Definite
import Mathlib.Data.List.Forall2

/-!
# Two passes over an array, and one

Mapping an array by some rules and the result by others goes over two arrays. Mapping it once by the
rules in a row goes over one, so every element is done with before the next one begins, and what
stands between the two passes is never made. In general that is not the same: the rules of an
element may read what those of another have written, and an element that comes to nothing is null in
the array between.

For blind rules it is (`Rule.map_then_map`). They answer for an element what they answer anywhere,
so the order does not matter. And an answer of theirs about a value of a document is a value of a
document again, so nothing becomes null on the way. Only which fault is found first may differ, when
there are several.
-/

set_option autoImplicit false

namespace DocumentRules

/-! ## Lists in pairs -/

section

variable {α β γ : Type}

/-- Two steps for every element can be made list by list. -/
theorem forall₂_exists {R : α → β → Prop} {S : β → γ → Prop} {as : List α} {cs : List γ} :
    List.Forall₂ (fun a c => ∃ b, R a b ∧ S b c) as cs ↔
      ∃ bs, List.Forall₂ R as bs ∧ List.Forall₂ S bs cs := by
  constructor
  · intro h
    induction h with
    | nil => exact ⟨[], .nil, .nil⟩
    | cons head _ ih =>
      obtain ⟨b, hb, hc⟩ := head
      obtain ⟨bs, hbs, hcs⟩ := ih
      exact ⟨b :: bs, .cons hb hbs, .cons hc hcs⟩
  · rintro ⟨bs, hbs, hcs⟩
    induction hbs generalizing cs with
    | nil =>
      cases hcs
      exact .nil
    | cons hb _ ih =>
      cases hcs with
      | cons hc hrest => exact .cons ⟨_, hb, hc⟩ (ih hrest)

end

/-! ## Loops over answers -/

/-- A loop whose step has the same answer for an element at every position, and changes nothing. -/
theorem eachElement_of_answers {α : Type} {step : Nat → Json → Run α} {s : Session}
    {answer : Json → Except Fault α} (h : ∀ i element, (step i element).on s = (answer element, s))
    {items : List Json} : ∀ {i : Nat} {results : List α} {t : Session},
      (eachElement step i items).on s = (.ok results, t) ↔
        List.Forall₂ (fun element result => answer element = .ok result) items results ∧ t = s := by
  induction items with
  | nil =>
    intro i results t
    rw [eachElement, Run.on_pure_eq_ok, List.forall₂_nil_left_iff]
    exact and_congr eq_comm eq_comm
  | cons element rest ih =>
    intro i results t
    simp only [eachElement, Run.on_bind_eq_ok, Run.on_pure_eq_ok, h, Prod.mk.injEq,
      List.forall₂_cons_left_iff]
    constructor
    · rintro ⟨result, _, ⟨hfirst, rfl⟩, others, _, hothers, rfl, rfl⟩
      obtain ⟨hrest, rfl⟩ := ih.mp hothers
      exact ⟨⟨result, others, hfirst, hrest, rfl⟩, rfl⟩
    · rintro ⟨⟨result, others, hfirst, hrest, rfl⟩, rfl⟩
      exact ⟨result, _, ⟨hfirst, rfl⟩, others, _, ih.mpr ⟨hrest, rfl⟩, rfl, rfl⟩

/-- Of two values that are taken along, the second stays. -/
theorem Point.carrying_carrying (first second : Option Json) (p : Point) :
    (p.carrying first).carrying second = p.carrying second := by
  cases p <;> rfl

namespace Rule

variable {rules first second : List Rule} {p : Point}

/-- Filtering or mapping by blind rules, seen from outside: they have an answer for every element,
and the session is as it was. -/
theorem run_inspect_of_blind (h : Blind rules) (hp : p.Reachable) (operator : Inspection)
    (items : List Json) {s t : Session} {o : Outcome} :
    (run (.action none (.inspect operator (some rules))) (some p) (.ofItems items)).on s =
        (.ok o, t) ↔
      ∃ results, List.Forall₂ (fun element result => answer rules (.json element) = .ok result)
          items results ∧
        o = ⟨.ofItems (operator.collect items results),
          some (p.carrying (some (.arr (operator.collect items results))))⟩ ∧ t = s := by
  have hstep : ∀ i element, (Run.inSameDocument (runSteps rules
      (Reading.elementPoint ⟨.ofItems items, p, false⟩ i element) (.json element))).on s =
        (answer rules (.json element), s) := fun i element =>
    sequence_of_blind h (Reading.elementPoint_reachable hp i element) (.json element) s
  simp only [run, Action.run, Run.on_bind_eq_ok, takeReading_of_reachable hp,
    Run.on_ofExcept_eq_ok, Run.on_pure_eq_ok, Prod.mk.injEq, Except.ok.injEq]
  constructor
  · rintro ⟨_, _, ⟨rfl, rfl⟩, read, _, ⟨hread, rfl⟩, results, _, hresults, rfl, rfl⟩
    cases hread
    obtain ⟨hanswers, rfl⟩ := (eachElement_of_answers hstep).mp hresults
    exact ⟨results, hanswers, rfl, rfl⟩
  · rintro ⟨results, hanswers, rfl, rfl⟩
    exact ⟨_, _, ⟨rfl, rfl⟩, items, _, ⟨rfl, rfl⟩, results, _,
      (eachElement_of_answers hstep).mpr ⟨hanswers, rfl⟩, rfl, rfl⟩

/-! ## Answers of rules in a row -/

theorem Blind.append (hfirst : Blind first) (hsecond : Blind second) : Blind (first ++ second) := by
  unfold Blind at *
  rw [allWithin_iff] at *
  intro rule hrule
  rcases List.mem_append.mp hrule with h | h
  · exact hfirst rule h
  · exact hsecond rule h

theorem runSteps_append (first second : List Rule) (p : Point) : ∀ cascade : Value,
    runSteps (first ++ second) p cascade = runSteps first p cascade >>= runSteps second p := by
  induction first with
  | nil => exact fun _ => rfl
  | cons rule rest ih =>
    intro cascade
    simp only [List.cons_append, runSteps, ih, bind_assoc]

/-- The answer of rules in a row is the answer of the later ones to that of the earlier. -/
theorem answer_append (hfirst : Blind first) (hsecond : Blind second) (cascade : Value) :
    answer (first ++ second) cascade = answer first cascade >>= answer second := by
  have hroot : Point.Reachable .documentRoot := .root
  rw [answer, runSteps_append, Run.on_bind, runSteps_of_blind hfirst hroot]
  cases answer first cascade with
  | error fault => rfl
  | ok value =>
    dsimp only
    rw [runSteps_of_blind hsecond hroot]
    rfl

/-- Blind rules answer a value of a document with one. -/
theorem answer_definite (h : Blind rules) {cascade : Value} (hcascade : cascade ≠ .undefined) :
    Definite (answer rules cascade) := by
  have hpaths : ∀ rule ∈ rules, rule.path? = none := by
    intro rule hrule
    have hwithin := allWithin_iff.mp h rule hrule
    cases rule with
    | group operator rules => rfl
    | path path => exact hwithin.elim
    | action path action => exact Option.eq_none_iff_forall_ne_some.mpr hwithin.1
  intro value hvalue
  have hrun := runSteps_of_blind h .root cascade .bare
  rw [hvalue] at hrun
  exact runSteps_definite rules hpaths _ hcascade .bare value .bare hrun

/-- So it can be put into an array in between. -/
theorem answer_append_eq_ok (hfirst : Blind first) (hsecond : Blind second) {element : Json}
    {result : Value} : answer (first ++ second) (.json element) = .ok result ↔
      ∃ middle, answer first (.json element) = .ok middle ∧
        answer second (.json middle.toJson) = .ok result := by
  rw [answer_append hfirst hsecond, bind_eq_ok]
  refine exists_congr fun middle => and_congr_right fun hmiddle => ?_
  rw [Value.json_toJson (answer_definite hfirst (by simp) middle hmiddle)]

/-- **Two passes of mapping by blind rules are one.** A cascade that maps an array by some rules
without paths and writes, and then what it has made by others, succeeds exactly if it maps the array
once by the first rules with the others behind them. Both then have the same value at the same
point, and leave the same session. -/
theorem map_then_map (hfirst : Blind first) (hsecond : Blind second) (hp : p.Reachable)
    (items : List Json) (s t : Session) (o : Outcome) :
    (run (.action none (.inspect .map (some first))) (some p) (.ofItems items) >>= fun middle =>
        run (.action none (.inspect .map (some second))) middle.point middle.value).on s =
        (.ok o, t) ↔
      (run (.action none (.inspect .map (some (first ++ second)))) (some p) (.ofItems items)).on s =
        (.ok o, t) := by
  rw [Run.on_bind_eq_ok, run_inspect_of_blind (hfirst.append hsecond) hp]
  simp only [run_inspect_of_blind hfirst hp, answer_append_eq_ok hfirst hsecond, forall₂_exists]
  constructor
  · rintro ⟨_, _, ⟨between, hbetween, rfl, rfl⟩, hrun⟩
    obtain ⟨results, hresults, rfl, rfl⟩ :=
      (run_inspect_of_blind hsecond (.carrying _ hp) .map _).mp hrun
    refine ⟨results, ⟨between, hbetween, List.forall₂_map_left_iff.mp hresults⟩, ?_, rfl⟩
    rw [Point.carrying_carrying]
    rfl
  · rintro ⟨results, ⟨between, hbetween, hresults⟩, rfl, rfl⟩
    refine ⟨_, _, ⟨between, hbetween, rfl, rfl⟩, ?_⟩
    refine (run_inspect_of_blind hsecond (.carrying _ hp) .map _).mpr ⟨results, ?_, ?_, rfl⟩
    · exact List.forall₂_map_left_iff.mpr hresults
    · rw [Point.carrying_carrying]
      rfl

/-- Takes the text of a value. -/
def takeText : List Rule :=
  [.action none (.cast .text)]

/-- Asks whether a value is the text `null` or a truth value. -/
def isNullText : List Rule :=
  [.group .or [.action none (.binary (.comparison .eq) (.literal (.str "null"))),
    .action none (.binary (.comparison .eq) (.derived [.action none (.cast .boolean)]))]]

/-- In the array between the passes, null has its text in its place. -/
theorem takeText_then_isNullText :
    let p : Point := Point.documentRoot.child "x"
    let made : Outcome := ⟨.ofItems [.bool false, .bool true, .bool false],
      some (p.carrying (some (.arr [.bool false, .bool true, .bool false])))⟩
    Blind takeText ∧ Blind isNullText ∧ p.Reachable ∧
      (run (.action none (.inspect .map (some (takeText ++ isNullText)))) (some p)
        (.ofItems [.bool true, .null, .str "a"])).on .bare = (.ok made, .bare) ∧
      (run (.action none (.inspect .map (some takeText))) (some p)
          (.ofItems [.bool true, .null, .str "a"]) >>= fun middle =>
        run (.action none (.inspect .map (some isNullText))) middle.point middle.value).on .bare =
          (.ok made, .bare) := by
  intro p made
  have htext : Blind takeText := ⟨⟨by simp, trivial⟩, trivial⟩
  have hnull : Blind isNullText :=
    ⟨⟨⟨by simp, trivial⟩, ⟨by simp, ⟨by simp, trivial⟩, trivial⟩, trivial⟩, trivial⟩
  have hp : p.Reachable := .child "x" .root
  have hone : (run (.action none (.inspect .map (some (takeText ++ isNullText)))) (some p)
    (.ofItems [.bool true, .null, .str "a"])).on .bare = (.ok made, .bare) := rfl
  exact ⟨htext, hnull, hp, hone, (map_then_map htext hnull hp _ .bare .bare made).mpr hone⟩

end Rule

end DocumentRules
