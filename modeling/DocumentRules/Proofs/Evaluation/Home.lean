import DocumentRules.Proofs.Evaluation.History

/-!
# Is a point in the current document?

A rule that is handed a point follows its path in the document that is current then, and nothing in
the session says that this is the document of the point. At the top level it is. Inside a group or a
sequence it need not be: the rules there are handed one point all of them, but a rule whose path has
led to another document leaves that one current for the rules behind it, and for those nested in
them. They read and write at their point's position in a document it does not belong to.

`Evaluator.at_home_iff` says exactly when that happens: a rule is called in the document of its
point, and a path that names no document stays there, if and only if the last path that was followed
since the point was handed out has led into the document of the point. The last theorem is a run in
which it has not.
-/

set_option autoImplicit false

namespace DocumentRules

/-- A path that names no document leads to a place in the current one. -/
theorem Session.document_of_locate {s : Session} {path : String} {point : Option Point}
    {place : Place} (h : s.locate path point = .ok place)
    (hpath : s.documents.names path = false) : place.document = s.current := by
  obtain ⟨trail, _, _, hfollow, _⟩ := Session.locate_eq_ok.mp h
  exact (Session.resolve_of_follow hfollow hpath).1

/-- The current document is the one of the point exactly if the latest place is in it. -/
theorem Site.Fits.home_iff {place : Place} {latest : Option Place} {current : String}
    (h : Site.Fits ⟨some place, latest⟩ current) :
    place.document = current ↔ ∀ l, latest = some l → l.document = place.document := by
  cases latest with
  | none =>
    refine ⟨fun _ l hl => absurd hl (by simp), fun _ => ?_⟩
    exact h.guide place rfl
  | some l =>
    have hl : l.document = current := h.guide l rfl
    constructor
    · intro hplace l' hl'
      rw [← Option.some.inj hl', hl, hplace]
    · intro hlatest
      rw [← hl, hlatest l rfl]

/-- **When a point is in the current document.** A rule is called in the document of the point that
it is handed exactly if the latest path before it, if any, has led into that document. A path that
names no document is followed into the document of the point under the same condition, by a rule
that reads there and by one that writes there. -/
theorem Evaluator.at_home_iff (evaluator : Evaluator) :
    (∀ rule place latest cascade s,
      Event.called rule ⟨some place, latest⟩ cascade s ∈ evaluator.trace →
        (place.document = s.current ↔ ∀ l, latest = some l → l.document = place.document)) ∧
    (∀ path origin latest place value s,
      Event.read path ⟨some origin, latest⟩ place value s ∈ evaluator.trace →
        s.documents.names path = false →
          (place.document = origin.document ↔
            ∀ l, latest = some l → l.document = origin.document)) ∧
    (∀ path origin latest place value before after,
      Event.wrote path ⟨some origin, latest⟩ place value before after ∈ evaluator.trace →
        before.documents.names path = false →
          (place.document = origin.document ↔
            ∀ l, latest = some l → l.document = origin.document)) := by
  have hsound : ∀ event ∈ evaluator.trace, event.Sound := fun _ => evaluator.history.sound
  refine ⟨?_, ?_, ?_⟩
  · intro rule place latest cascade s hmem
    have hfits : Site.Fits ⟨some place, latest⟩ s.current := hsound _ hmem
    exact hfits.home_iff
  · intro path origin latest place value s hmem hpath
    obtain ⟨hfits, hplace, -⟩ := hsound _ hmem
    rw [Session.document_of_locate hplace hpath, eq_comm]
    exact hfits.home_iff
  · intro path origin latest place value before after hmem hpath
    obtain ⟨hfits, _, _, hplace, _⟩ := hsound _ hmem
    rw [Session.document_of_locate hplace hpath, eq_comm]
    exact hfits.home_iff

/-- A document with a number at `/o/x`. -/
def Json.holding (id : String) (n : Int) : Json :=
  .obj [("$id", .str id), ("o", .obj [("x", .ofInt n)])]

/-- Compares the number of document `A` with what two rules find: the first looks into document `B`,
the second goes up from where it is and down again. -/
def Evaluator.lookAside : Evaluator where
  rules := [.action (some "/o/x")
    (.binary (.comparison .eq) (.derived [.path "B/o", .path "../x"]))]
  primary := "A"
  documents := ⟨"A", [("$vars", .obj []), ("A", .holding "A" 1), ("B", .holding "B" 2)]⟩

/-- The second rule of the operand is handed the point `/o/x` of document `A` while `B` is current.
It reads 2 there, and the number of `A` is found to differ from itself. -/
theorem Evaluator.lookAside_not_at_home :
    Evaluator.new Evaluator.lookAside.rules [.holding "A" 1, .holding "B" 2] none =
        .ok .lookAside ∧
      Evaluator.lookAside.run.1 = .ok (.ofBool false) ∧
      ∃ place latest cascade s,
        Event.called (.path "../x") ⟨some place, latest⟩ cascade s ∈ Evaluator.lookAside.trace ∧
          place.document = "A" ∧ s.current = "B" := by
  refine ⟨rfl, rfl, ?_⟩
  -- It is the fifth event: two calls and two readings come before it.
  exact ⟨_, _, _, _, List.mem_of_getElem? (i := 4) rfl, rfl, rfl⟩

end DocumentRules
