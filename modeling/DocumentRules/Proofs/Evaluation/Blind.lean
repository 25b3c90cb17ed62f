import DocumentRules.Proofs.Evaluation.Agreement
import DocumentRules.Proofs.Pointer.Reachable

/-!
# Rules that see no document

A session enters a run at three steps: reading at a path, writing at one, and following the path of
a rule into its document. Rules that have no path and write nothing take none of them. They still
make points, one for every element that they go through, and a live point is another thing than one
that carries its element. But a point only says where a path would lead on from, and no path comes.

So what blind rules make of a value can be said without a session: it is what they make of it where
there is no document at all (`Rule.answer`). From any point, in any session, they give the same
value or fail with the same fault, and the session is as it was (`Rule.runSteps_of_blind`). A point
matters in one way only. A rule without a path still goes the way back from it, and a chain of
points that repeats a text has no way back; the points that can be made all have one.
-/

set_option autoImplicit false

namespace DocumentRules

/-- The rules, and those inside them at any depth, have no path and write nothing. -/
def Rule.Blind (rules : List Rule) : Prop :=
  Rule.AllWithin (fun _ => False) (fun _ => False) rules

/-! ## Two runs without a document in sight -/

theorem Point.Reachable.trailOf {p : Point} (h : p.Reachable) :
    DocumentRules.trailOf (some p) = .ok p.lineage.reverse :=
  trailOf_some_eq_ok.mpr h.spelled_and_anchored.1.trail

theorem Reading.elementPoint_reachable {r : Reading} (h : r.point.Reachable) (i : Nat)
    (element : Json) : (r.elementPoint i element).Reachable := by
  unfold Reading.elementPoint
  split
  · exact .child _ h
  · exact .childCarrying _ _ h

/-- A rule without a path takes what it is handed, at the point that it is handed. -/
theorem takeReading_of_reachable {p : Point} (h : p.Reachable) (cascade : Value) (s : Session) :
    (takeReading none (some p) cascade).on s = (.ok ⟨cascade, p, false⟩, s) := by
  rw [takeReading_none_on, h.trailOf]

/-- Two runs in two sessions that stay as they are, at any two points and with one value. -/
def Agreement.blind (s₀ t₀ : Session) : Agreement where
  sessions s t := s = s₀ ∧ t = t₀
  points p q := ∃ a b, p = some a ∧ q = some b ∧ a.Reachable ∧ b.Reachable
  readings r r' := r.value = r'.value ∧ r.point.Reachable ∧ r'.point.Reachable

theorem Agreement.blind_lawful (s₀ t₀ : Session) :
    (Agreement.blind s₀ t₀).Lawful (fun _ => False) (fun _ => False) where
  restored := by
    rintro s t s' t' ⟨rfl, rfl⟩ ⟨rfl, rfl⟩
    exact ⟨rfl, rfl⟩
  reading := by
    rintro path _ _ hpath ⟨p, q, rfl, rfl, hp, hq⟩ cascade s t hs
    cases path with
    | some path => exact (hpath path rfl).elim
    | none =>
      rw [takeReading_of_reachable hp, takeReading_of_reachable hq]
      exact .ok ⟨rfl, hp, hq⟩ hs
  value h := h.1
  point h := ⟨_, _, rfl, rfl, h.2⟩
  carrying h value := ⟨_, _, rfl, rfl, .carrying value h.2.1, .carrying value h.2.2⟩
  element h _ _ :=
    ⟨_, _, rfl, rfl, Reading.elementPoint_reachable h.2.1 _ _,
      Reading.elementPoint_reachable h.2.2 _ _⟩
  writing := False.elim
  operator _ := trivial

/-! ## Answers -/

/-- A session without documents. -/
def Session.bare : Session where
  documents := ⟨"", []⟩
  current := ""

/-- What a sequence of rules makes of a value where there is no document. -/
def Rule.answer (rules : List Rule) (cascade : Value) : Except Fault Value :=
  ((Rule.runSteps rules .documentRoot cascade).on .bare).1

namespace Rule

variable {rules : List Rule} {p : Point}

/-- **Blind rules answer everywhere what they answer without documents**, and change nothing. -/
theorem runSteps_of_blind (h : Blind rules) (hp : p.Reachable) (cascade : Value) (s : Session) :
    (runSteps rules p cascade).on s = (answer rules cascade, s) := by
  have hpoints : (Agreement.blind s .bare).points (some p) (some .documentRoot) :=
    ⟨_, _, rfl, rfl, hp, .root⟩
  have hends := runSteps_agrees (Agreement.blind_lawful s .bare) rules h hpoints cascade
    s .bare ⟨rfl, rfl⟩
  unfold answer
  generalize (runSteps rules p cascade).on s = here,
    (runSteps rules .documentRoot cascade).on .bare = there at hends
  cases hends with
  | ok hresult hsessions => rw [hresult, hsessions.1]
  | error _ hsessions => rw [hsessions.1]

/-- Also as a sequence of its own, since the document that they go back to is
the one they are in. -/
theorem sequence_of_blind (h : Blind rules) (hp : p.Reachable) (cascade : Value) (s : Session) :
    (Run.inSameDocument (runSteps rules p cascade)).on s = (answer rules cascade, s) := by
  rw [Run.on_inSameDocument, runSteps_of_blind h hp]
  cases answer rules cascade <;> rfl

/-- **Where blind rules run makes no difference.** A sequence of rules that have no path and write
nothing, at any depth, is given one value at two points and in two sessions, of whatever documents,
with whichever of them current, and whether the points read live or carry what they have. Then it
gives the same value in both or fails with the same fault in both, and both sessions are as they
were. -/
theorem blind_sequence_anywhere (h : Blind rules) {q : Point} (hp : p.Reachable) (hq : q.Reachable)
    (cascade : Value) (s t : Session) :
    ∃ result : Except Fault Value,
      (Run.inSameDocument (runSteps rules p cascade)).on s = (result, s) ∧
      (Run.inSameDocument (runSteps rules q cascade)).on t = (result, t) :=
  ⟨answer rules cascade, sequence_of_blind h hp cascade s, sequence_of_blind h hq cascade t⟩

/-- Counts the arrays of an array that have a text among their elements. -/
def countTextual : List Rule :=
  [.action none (.inspect .filter (some
    [.action none (.contains (some (.derived [.action none (.cast .text)])))])),
   .action none .length]

/-- Two of three arrays have a text. That is so at a live point over an array of two elements, and
at a point that carries null in a session without documents. -/
theorem countTextual_anywhere :
    let three : Value := .ofItems [.arr [.str "a"], .arr [.bool true], .arr [.null, .str "b"]]
    let live : Point := Point.documentRoot.child "x"
    let carried : Point := (Point.documentRoot.child "y").carrying (some .null)
    let s : Session := ⟨⟨"A", [("A", .obj [("x", .arr [.null, .str "c"])])]⟩, "A"⟩
    Blind countTextual ∧ live.Reachable ∧ carried.Reachable ∧
      (Run.inSameDocument (runSteps countTextual live three)).on s = (.ok (.json (.ofInt 2)), s) ∧
      (Run.inSameDocument (runSteps countTextual carried three)).on .bare =
        (.ok (.json (.ofInt 2)), .bare) := by
  intro three live carried s
  have hblind : Blind countTextual :=
    ⟨⟨by simp, ⟨⟨by simp, ⟨by simp, trivial⟩, trivial⟩, trivial⟩⟩, ⟨by simp, trivial⟩, trivial⟩
  have hlive : live.Reachable := .child "x" .root
  have hcarried : carried.Reachable := .carrying (some .null) (.child "y" .root)
  obtain ⟨result, hhere, hthere⟩ := blind_sequence_anywhere hblind hlive hcarried three s .bare
  have hrun : (Run.inSameDocument (runSteps countTextual live three)).on s =
    (.ok (.json (.ofInt 2)), s) := rfl
  rw [hrun] at hhere
  cases hhere
  exact ⟨hblind, hlive, hcarried, hrun, hthere⟩

end Rule

end DocumentRules
