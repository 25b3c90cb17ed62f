import DocumentRules.Proofs.Evaluation.Visibility
import DocumentRules.Proofs.Pointer.Carried

/-!
# Reading back what was set

A rule that sets at a path writes where its point and the path lead, and a rule that reads at the
same path from the same point is led to the same place. What it reads there depends on the place. A
live place is read in the document, and the value is the one just written. A place that carries a
value is not read in the document at all: the write has changed the document at the keys of the
place, the rule reads what the place carries, and the two need not be the same
(`Evaluator.path_after_set`). Filtering and mapping leave such a point on purpose: the paths behind
them lead into what they have made and not into the document.

A path carries on from the point it starts at, so a path without `..` that names no document leads
from a point with a value in hand to a place inside that value (`Session.origin_of_locate`). Going
up may lead out of it.
-/

set_option autoImplicit false

namespace DocumentRules

/-! ## Paths that do not go up -/

theorem Pointer.origin_of_walk {tokens : List String} :
    ∀ {above : List Point} {p target : Point}, Pointer.parentToken ∉ tokens →
      Pointer.walk tokens above p = .ok target → target.origin = p.origin.below tokens := by
  induction tokens with
  | nil =>
    intro above p target _ h
    unfold Pointer.walk at h
    rw [← Except.ok.inj h, Origin.below_nil]
  | cons token rest ih =>
    intro above p target hup h
    rw [List.mem_cons, not_or] at hup
    unfold Pointer.walk at h
    rw [if_neg (Ne.symm hup.1)] at h
    rw [ih hup.2 h, Point.origin_child, Origin.below_below]
    rfl

/-- A path that names no document and does not go up leads into what the point has in hand. -/
theorem Session.origin_of_locate {s : Session} {path : String} {p : Point} {place : Place}
    (h : s.locate path (some p) = .ok place) (hpath : s.documents.names path = false)
    (hup : Pointer.parentToken ∉ Pointer.tokens path.toList) :
    place.point.origin = p.origin.below (Pointer.tokens path.toList) := by
  obtain ⟨trail, _, htrail, hfollow, _⟩ := Session.locate_eq_ok.mp h
  obtain ⟨-, hresolve⟩ := Session.resolve_of_follow hfollow hpath
  have hlast : trail.reverse.head? = some p := by
    rw [List.head?_reverse]
    exact Point.getLast?_of_trail (trailOf_some_eq_ok.mp htrail)
  unfold Pointer.resolve at hresolve
  generalize trail.reverse = points at hlast hresolve
  cases points with
  | nil => exact absurd hlast (by simp)
  | cons last above =>
    rw [List.head?_cons, Option.some.injEq] at hlast
    rw [← hlast]
    exact Pointer.origin_of_walk hup hresolve

/-! ## A rule that sets -/

/-- Finds the value that a rule sets: the one of its operand, or else the one it has read. -/
def Action.toWrite (operand : Option Operand) (r : Reading) : Run Value :=
  match operand with
  | none => pure r.value
  | some operand => operand.run r.point r.value

theorem Action.run_set (path : String) (operand : Option Operand) (r : Reading) :
    (Action.set path operand).run r = (do
      let value ← Action.toWrite operand r
      writeAt path r.point value
      return ⟨r.value, some r.point⟩) := by
  cases operand with
  | none =>
    simp only [Action.run, Action.toWrite, pure_bind]
  | some operand => rfl

/-- A rule that sets does three things, and hands on what it has read. -/
theorem Rule.run_set_eq_ok {own : Option String} {path : String} {operand : Option Operand}
    {point : Option Point} {cascade : Value} {s t : Session} {o : Outcome}
    (h : (Rule.run (.action own (.set path operand)) point cascade).on s = (.ok o, t)) :
    ∃ r s₁ written before, (takeReading own point cascade).on s = (.ok r, s₁) ∧
      (Action.toWrite operand r).on s₁ = (.ok written, before) ∧
      before.write path r.point written.toJson = .ok t ∧ o = ⟨r.value, some r.point⟩ := by
  simp only [Rule.run, Action.run_set] at h
  obtain ⟨r, s₁, hr, h⟩ := Run.on_bind_eq_ok.mp h
  obtain ⟨written, before, hwritten, h⟩ := Run.on_bind_eq_ok.mp h
  obtain ⟨_, u, hwrite, h⟩ := Run.on_bind_eq_ok.mp h
  obtain ⟨rfl, rfl⟩ := Run.on_pure_eq_ok.mp h
  rw [writeAt_on] at hwrite
  cases hw : before.write path r.point written.toJson with
  | error fault => simp [hw] at hwrite
  | ok v =>
    simp only [hw, Prod.mk.injEq] at hwrite
    exact ⟨r, s₁, written, before, hr, hwritten, by rw [hw, hwrite.2], rfl⟩

/-! ## Reading back -/

/-- What is read at a place of this origin, if `written` stands in the document there. -/
def Origin.readBack (written : Json) : Origin → Value
  | .live => .json written
  | .carried value => .ofOption value

/-- A write, and then a reading at the same path from the same point. -/
theorem Session.path_after_write {s t : Session} {path : String} {point : Point} {written : Json}
    {target : Place} (htarget : s.locate path (some point) = .ok target)
    (h : s.write path point written = .ok t) (happend : ¬ s.AppendsAt target) (handed : Value) :
    (∃ doc, t.documents.get? target.document = some doc ∧
        doc.get? target.point.keys = some written) ∧
      (Rule.run (.path path) (some point) handed).on t =
        (.ok ⟨target.point.origin.readBack written, some target.point⟩,
          { t with current := target.document }) := by
  obtain ⟨doc, old, doc', hdoc, hset, ht⟩ := Session.write_at htarget h
  have hdoc' : t.documents.get? target.document = some doc' := by
    rw [ht]
    exact Table.lookup_put_self _ _ _
  have hwritten : doc'.get? target.point.keys = some written := by
    have hbelow := Json.get?_set_below hset (fun happ => happend ⟨doc, hdoc, happ⟩) []
    rwa [List.append_nil] at hbelow
  have hlocate : t.locate path (some point) = .ok target := by
    rw [← htarget]
    exact Session.locate_congr (by rw [ht]) (Session.contains_of_write h) path (some point)
  have hvalue : t.valueAt target = target.point.origin.readBack written := by
    simp only [Session.valueAt, Session.read, hdoc', Point.value?]
    cases target.point.origin with
    | live => exact congrArg Value.ofOption hwritten
    | carried value => rfl
  refine ⟨⟨doc', hdoc', hwritten⟩, ?_⟩
  simp only [Rule.run]
  rw [Run.on_bind, takeReading_path_on, hlocate]
  dsimp only
  rw [Run.on_pure, hvalue]

/-- **Reading back.** In every run, after a rule has set a value at a path, and without appending,
the value stands in the document at the place that the path leads to, and a rule that reads at the
same path from the same point is led to that place. If the place is live, it reads the value; if the
place carries something, it reads that. What a place carries is part of what the point carries
whenever the path does not go up and names no document.

The same point is the one that the rule hands on, and that is also the one that it was handed, if it
has no path of its own. So this covers the next rule of a cascade and that of a sequence. -/
theorem Evaluator.path_after_set (evaluator : Evaluator) {own : Option String} {path : String}
    {operand : Option Operand} {site : Site} {cascade : Value} {s t : Session} {o : Outcome}
    (hcall : Event.called (.action own (.set path operand)) site cascade s ∈ evaluator.trace)
    (hrun : (Rule.run (.action own (.set path operand)) site.point cascade).on s = (.ok o, t)) :
    ∃ r s₁ written before target,
      (takeReading own site.point cascade).on s = (.ok r, s₁) ∧
      (Action.toWrite operand r).on s₁ = (.ok written, before) ∧
      before.locate path (some r.point) = .ok target ∧
      o.point = some r.point ∧ (own = none → o.point = site.point) ∧
      (¬ before.AppendsAt target →
        (∃ doc, t.documents.get? target.document = some doc ∧
          doc.get? target.point.keys = some written.toJson) ∧
        ∀ handed, (Rule.run (.path path) o.point handed).on t =
          (.ok ⟨target.point.origin.readBack written.toJson, some target.point⟩,
            { t with current := target.document })) ∧
      (before.documents.names path = false →
        Pointer.parentToken ∉ Pointer.tokens path.toList →
          target.point.origin = r.point.origin.below (Pointer.tokens path.toList)) := by
  obtain ⟨r, s₁, written, before, hr, hwritten, hwrite, rfl⟩ := Rule.run_set_eq_ok hrun
  have hfits : site.Fits s.current := evaluator.history.sound hcall
  obtain ⟨hentered, hpoint⟩ := hfits.entered hr
  obtain ⟨trail, document, target, _, _, _, htrail, hfollow, _, _, _⟩ :=
    Session.write_eq_ok.mp hwrite
  have htarget := Session.locate_of_follow (hentered.point_spelled r.point hpoint) htrail hfollow
  refine ⟨r, s₁, written, before, ⟨document, target⟩, hr, hwritten, htarget, rfl, ?_, ?_, ?_⟩
  · intro hown
    rcases takeReading_eq_ok hr with ⟨path, _, hpath, _, _, _⟩ | ⟨_, hhanded, _, _⟩
    · exact absurd (hown.symm.trans hpath) (by simp)
    · exact hhanded.symm
  · intro happend
    have hread := Session.path_after_write htarget hwrite happend
    exact ⟨(hread .undefined).1, fun handed => (hread handed).2⟩
  · intro hpath hup
    exact Session.origin_of_locate htarget hpath hup

/-- Copies an array by mapping it with no rules, sets at a path from the point that this leaves, and
reads there again. -/
def Evaluator.copyThenSet (path : String) : Evaluator where
  rules := [.action (some "/xs") (.inspect .map (some [])),
    .action none (.set path (some (.literal (.ofInt 9)))), .path path]
  primary := "D"
  documents := ⟨"D", [("$vars", .obj []),
    ("D", .obj [("$id", .str "D"), ("xs", .arr [.ofInt 1])])]⟩

/-- Where the rule that sets is called: at the array, with the copy in hand. -/
def Site.copied : Site :=
  ⟨some ⟨"D", (Point.documentRoot.child "xs").carrying (some (.arr [.ofInt 1]))⟩, none⟩

/-- From the copy up to a field beside the array: the field is live, and is read back. -/
theorem Evaluator.copyThenSet_beside :
    Event.called (.action none (.set "../x" (some (.literal (.ofInt 9))))) .copied
        (.ofItems [.ofInt 1]) ⟨(Evaluator.copyThenSet "../x").documents, "D"⟩ ∈
      (Evaluator.copyThenSet "../x").trace ∧
    ∃ o t, (Rule.run (.action none (.set "../x" (some (.literal (.ofInt 9)))))
          Site.copied.point (.ofItems [.ofInt 1])).on
            ⟨(Evaluator.copyThenSet "../x").documents, "D"⟩ = (.ok o, t) ∧
      ∃ place : Place, ∀ handed, (Rule.run (.path "../x") o.point handed).on t =
        (.ok ⟨.json (.ofInt 9), some place.point⟩, { t with current := place.document }) := by
  have hcall : (Evaluator.copyThenSet "../x").trace[2]? =
      some (.called (.action none (.set "../x" (some (.literal (.ofInt 9))))) .copied
        (.ofItems [.ofInt 1]) ⟨(Evaluator.copyThenSet "../x").documents, "D"⟩) := by rfl
  refine ⟨List.mem_of_getElem? hcall, _, _, rfl, ?_⟩
  obtain ⟨r, s₁, written, before, target, hr, hwritten, htarget, -, -, hread, -⟩ :=
    Evaluator.path_after_set (Evaluator.copyThenSet "../x") (List.mem_of_getElem? hcall) rfl
  cases hr
  cases hwritten
  cases htarget
  exact ⟨_, (hread (Session.not_appendsAt (by decide))).2⟩

/-- Into the copy: the rule behind the write reads the 1 of the copy, and the 9 that was written
stands in the document. -/
theorem Evaluator.copyThenSet_inside :
    Evaluator.new (Evaluator.copyThenSet "/0").rules
        [.obj [("$id", .str "D"), ("xs", .arr [.ofInt 1])]] none = .ok (.copyThenSet "/0") ∧
      Event.called (.action none (.set "/0" (some (.literal (.ofInt 9))))) .copied
          (.ofItems [.ofInt 1]) ⟨(Evaluator.copyThenSet "/0").documents, "D"⟩ ∈
        (Evaluator.copyThenSet "/0").trace ∧
      (Evaluator.copyThenSet "/0").run.1 = .ok (.json (.ofInt 1)) ∧
      (Evaluator.copyThenSet "/0").run.2.documents.get? "D" =
        some (.obj [("$id", .str "D"), ("xs", .arr [.ofInt 9])]) := by
  have hcall : (Evaluator.copyThenSet "/0").trace[2]? =
      some (.called (.action none (.set "/0" (some (.literal (.ofInt 9))))) .copied
        (.ofItems [.ofInt 1]) ⟨(Evaluator.copyThenSet "/0").documents, "D"⟩) := by rfl
  exact ⟨rfl, List.mem_of_getElem? hcall, rfl, rfl⟩

end DocumentRules
