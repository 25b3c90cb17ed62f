import DocumentRules.Proofs.Evaluation.Failure
import DocumentRules.Proofs.Evaluation.Names
import DocumentRules.Proofs.Evaluation.ReadBack
import DocumentRules.Proofs.Pointer.Reachable
import DocumentRules.Proofs.Pointer.Refusal

/-!
# All of a write or none of it

A write can go wrong in three layers. The text of its path may be refused, the path may lead up out
of the document, and the place that it leads to may not take a value. `Session.CannotWrite` names
the reasons, and a write ends in one of two ways: there is such a reason, and then the fault says
so and nothing has changed; or one document has changed, the one that the path leads into, and in it
what a write at the keys of the place changes (`Session.writes_whole_or_not`). Which document is
current plays a part in where the path leads, but is not changed.

That nothing has changed is more than a session handed back. Whoever holds the documents edits the
one that is written to where it is (`editAt`), and only the law of edits says that a refused one
leaves it as it was.

So a rule that sets and fails leaves the session that its operand has left, and without rules to
find the operand the one that reading at its own path has left.
-/

set_option autoImplicit false

namespace DocumentRules

/-! ## Sessions that are reached -/

/-- A session that the runs of a new evaluator go through, one run after another. -/
def Session.Reached (s : Session) : Prop :=
  ∃ rules docs primary evaluator runs, Evaluator.new rules docs primary = .ok evaluator ∧
    s ∈ evaluator.sessionsTimes runs

namespace Session

variable {s : Session} {path : String} {point : Point}

theorem Reached.exists_namedAs (h : s.Reached) : ∃ documents, s.NamedAs documents := by
  obtain ⟨rules, docs, primary, evaluator, runs, hnew, hs⟩ := h
  have hstart : evaluator.start.NamedAs evaluator.documents :=
    ⟨rfl, rfl, Table.mem_keys_iff.mpr (Evaluator.contains_primary hnew)⟩
  exact ⟨evaluator.documents,
    Evaluator.holds_of_sessionsTimes (namedAs_lasting evaluator.documents) runs hstart s hs⟩

theorem NamedAs.contains_current {documents : Documents} (h : s.NamedAs documents) :
    s.documents.contains s.current = true := by
  apply Table.mem_keys_iff.mp
  rw [h.keys]
  exact h.current

/-! ## Why a write fails -/

/-- The reasons for which nothing can be written at a path. -/
inductive CannotWrite (s : Session) (path : String) (point : Point) : WriteFailure → Prop where
  | noPlace {cause : PointerError}
      (lost : s.locate path (some point) = .error (.badPath path cause)) :
      CannotWrite s path point (.place (.badPath path cause))
  | refused {place : Place} {doc : Json} {error : PointerError}
      (led : s.locate path (some point) = .ok place)
      (there : s.documents.get? place.document = some doc)
      (refused : doc.Refused place.point.keys error) :
      CannotWrite s path point (.pointer error)

theorem write_of_follow {trail : List Point} {document : String} {target : Point} {doc : Json}
    (value : Json) (htrail : point.trail = .ok trail)
    (hfollow : s.follow path trail = .ok (document, target))
    (hdoc : s.documents.get? document = some doc) :
    s.write path point value =
      match doc.set target.keys value with
      | .ok (_, after) => .ok { s with documents := s.documents.put document after }
      | .error error => .error (.domain (.cannotSet path (.pointer error))) := by
  unfold write
  simp only [htrail, hfollow, mapError_ok, ok_bind, hdoc]
  cases doc.set target.keys value <;> rfl

theorem write_of_lost {trail : List Point} {cause : PointerError} (value : Json)
    (htrail : point.trail = .ok trail)
    (hfollow : s.follow path trail = .error (.badPath path cause)) :
    s.write path point value =
      .error (.domain (.cannotSet path (.place (.badPath path cause)))) := by
  unfold write
  rw [htrail, mapError_ok, ok_bind, hfollow]
  rfl

theorem locate_of_lost {trail : List Point} {cause : PointerError}
    (htrail : point.trail = .ok trail)
    (hfollow : s.follow path trail = .error (.badPath path cause)) (hcause : cause.OfPath path) :
    s.locate path (some point) = .error (.badPath path cause) := by
  unfold locate
  rw [trailOf_some_eq_ok.mpr htrail, ok_bind, hfollow]
  cases cause with
  | cycle text => exact hcause.elim
  | _ => rfl

/-- A write fails for one of the reasons, or puts a new document in place of an old one. -/
theorem write_cases (hcurrent : s.documents.contains s.current = true) (path : String)
    (hpoint : point.Spelled) (value : Json) :
    (∃ failure, s.CannotWrite path point failure ∧
      s.write path point value = .error (.domain (.cannotSet path failure))) ∨
    ∃ place doc old doc', s.locate path (some point) = .ok place ∧
      s.documents.get? place.document = some doc ∧
      doc.set place.point.keys value = .ok (old, doc') ∧
      s.write path point value =
        .ok { s with documents := s.documents.put place.document doc' } := by
  have htrail := hpoint.trail
  cases hfollow : s.follow path point.lineage.reverse with
  | error fault =>
    obtain ⟨cause, rfl, hcause⟩ := error_of_follow hcurrent hfollow
    exact .inl ⟨_, .noPlace (locate_of_lost htrail hfollow hcause),
      write_of_lost value htrail hfollow⟩
  | ok found =>
    obtain ⟨document, target⟩ := found
    have hplace := locate_of_follow hpoint htrail hfollow
    obtain ⟨doc, hdoc⟩ := get?_of_locate hplace
    have hwrite := write_of_follow value htrail hfollow hdoc
    cases hset : doc.set target.keys value with
    | error error =>
      rw [hset] at hwrite
      exact .inl ⟨_, .refused hplace hdoc (Json.set_eq_error.mp hset), hwrite⟩
    | ok result =>
      obtain ⟨old, doc'⟩ := result
      rw [hset] at hwrite
      exact .inr ⟨⟨document, target⟩, doc, old, doc', hplace, hdoc, hset, hwrite⟩

end Session

/-! ## Writing in place -/

/-- Writes from a point, as a step, in documents that are held. The document that the path leads
into is edited where it is, and what is held of it afterwards stands under its name, also if the
edit has been refused. -/
def editAt (path : String) (point : Point) (value : Value) : Run Unit := do
  let session ← get
  let trail ← Run.ofExcept (point.trail.mapError (Fault.ofPointer path))
  let (document, target) ← Run.ofExcept ((session.follow path trail).mapError fun fault =>
    .domain (.cannotSet path (.place fault)))
  match session.documents.get? document with
  | none => Run.fail (.domain (.unknownDocument document))
  | some doc =>
    let (result, held) := doc.edit target.keys value.toJson
    set { session with documents := session.documents.put document held }
    let _ ← Run.ofExcept (result.mapError fun error => .domain (.cannotSet path (.pointer error)))
    return ()

/-- Writing in place is writing: a refused edit puts back the document that was there. -/
theorem editAt_on (path : String) (point : Point) (value : Value) (s : Session) :
    (editAt path point value).on s = (writeAt path point value).on s := by
  rw [writeAt_on, editAt, Run.on_bind, Run.on_get]
  dsimp only
  rw [Run.on_bind, Run.on_ofExcept]
  cases htrail : point.trail with
  | error error =>
    rw [Session.write, htrail]
    rfl
  | ok trail =>
    rw [mapError_ok]
    dsimp only
    rw [Run.on_bind, Run.on_ofExcept]
    cases hfollow : s.follow path trail with
    | error fault =>
      rw [Session.write, htrail, mapError_ok, ok_bind, hfollow]
      rfl
    | ok found =>
      obtain ⟨document, target⟩ := found
      obtain ⟨doc, hdoc⟩ : ∃ doc, s.documents.get? document = some doc :=
        Option.isSome_iff_exists.mp (Session.contains_of_follow hfollow)
      rw [mapError_ok, Session.write_of_follow value.toJson htrail hfollow hdoc]
      dsimp only
      rw [hdoc]
      dsimp only
      rw [Json.edit_eq_set]
      cases doc.set target.keys value.toJson with
      | ok result => rfl
      | error error =>
        have hsame : s.documents.put document doc = s.documents := by
          rw [Documents.put, Table.put_of_lookup hdoc]
        dsimp only
        rw [hsame]
        rfl

/-! ## A rule that sets and fails -/

/-- Without rules that find it, the value to write is at hand and changes nothing. -/
theorem Action.toWrite_on {operand : Option Operand} (h : ∀ rules, operand ≠ some (.derived rules))
    (r : Reading) (s : Session) : ((Action.toWrite operand r).on s).2 = s := by
  match operand with
  | none => rfl
  | some (.literal value) => rfl
  | some (.derived rules) => exact absurd rfl (h rules)

theorem Session.Lasting.toWrite {P : Session → Prop} (law : Session.Lasting P)
    (operand : Option Operand) (r : Reading) : (Action.toWrite operand r).Preserves P := by
  cases operand with
  | none => exact fun _ hs => hs
  | some operand => exact law.runOperand operand r.point r.value

/-- A rule that sets fails in one of three steps. -/
theorem Rule.run_set_eq_error {own : Option String} {path : String} {operand : Option Operand}
    {point : Option Point} {cascade : Value} {s t : Session} {fault : Fault}
    (h : (Rule.run (.action own (.set path operand)) point cascade).on s = (.error fault, t)) :
    (takeReading own point cascade).on s = (.error fault, t) ∨
      ∃ r u, (takeReading own point cascade).on s = (.ok r, u) ∧
        ((Action.toWrite operand r).on u = (.error fault, t) ∨
          ∃ written, (Action.toWrite operand r).on u = (.ok written, t) ∧
            t.write path r.point written.toJson = .error fault) := by
  simp only [Rule.run, Action.run_set] at h
  rcases Run.on_bind_eq_error.mp h with hr | ⟨r, u, hr, h⟩
  · exact .inl hr
  rcases Run.on_bind_eq_error.mp h with hwritten | ⟨written, v, hwritten, h⟩
  · exact .inr ⟨r, u, hr, .inl hwritten⟩
  rcases Run.on_bind_eq_error.mp h with hwrite | ⟨_, _, _, hpure⟩
  · rw [writeAt_on] at hwrite
    cases hw : v.write path r.point written.toJson with
    | ok w => simp [hw] at hwrite
    | error other =>
      rw [hw] at hwrite
      cases hwrite
      exact .inr ⟨r, u, hr, .inr ⟨written, hwritten, hw⟩⟩
  · cases hpure

/-- A reading writes nothing, and without a path it goes nowhere. -/
theorem documents_of_takeReading {path : Option String} {point : Option Point} {cascade : Value}
    {s t : Session} {r : Reading} (h : (takeReading path point cascade).on s = (.ok r, t)) :
    t.documents = s.documents ∧ (path = none → t = s) := by
  rcases takeReading_eq_ok h with ⟨own, _, rfl, _, _, rfl⟩ | ⟨_, _, _, rfl⟩
  · exact ⟨rfl, fun hown => absurd hown (by simp)⟩
  · exact ⟨rfl, fun _ => rfl⟩

/-- What a rule works on stands at a spelled point. -/
theorem takeReading_spelled {path : Option String} {point : Option Point} {cascade : Value}
    {s t : Session} {r : Reading} (h : (takeReading path point cascade).on s = (.ok r, t))
    (hpoint : ∀ p, point = some p → p.Spelled) : r.point.Spelled := by
  rcases takeReading_eq_ok h with ⟨own, place, -, hplace, rfl, -⟩ | ⟨-, hhanded, -, -⟩
  · exact Session.spelled_of_locate hplace hpoint
  · exact hpoint r.point hhanded

/-- **A write is made whole or not at all.** From a session that is reached and a point that can be
made, a write at a path either fails, for one of the reasons that there are and always with a domain
fault that names it, and leaves the session as it was; or the document that the path leads into is
replaced by what a write at the keys of the place makes of it, and no other document changes, nor
which one is current. Writing in place comes to the same.

So where a rule that sets fails, it has read at its own path and has run the rules that find the
value, as far as it came, and has changed nothing besides. -/
theorem Session.writes_whole_or_not {s : Session} (hs : s.Reached) (path : String) :
    (∀ point : Point, point.Reachable → ∀ value : Value,
      ((∃ failure, s.CannotWrite path point failure ∧ failure.OfPath path ∧
          (writeAt path point value).on s = (.error (.domain (.cannotSet path failure)), s)) ∨
        ∃ place doc old doc' t, s.locate path (some point) = .ok place ∧
          s.documents.get? place.document = some doc ∧
          doc.set place.point.keys value.toJson = .ok (old, doc') ∧
          (writeAt path point value).on s = (.ok ⟨⟩, t) ∧ t.current = s.current ∧
          t.documents.get? place.document = some doc' ∧
          ∀ id, id ≠ place.document → t.documents.get? id = s.documents.get? id) ∧
      (editAt path point value).on s = (writeAt path point value).on s) ∧
    (∀ (own : Option String) (operand : Option Operand) (handed : Option Point) (cascade : Value)
      (fault : Fault) (t : Session), (∀ p, handed = some p → p.Reachable) →
      (Rule.run (.action own (.set path operand)) handed cascade).on s = (.error fault, t) →
        ((takeReading own handed cascade).on s = (.error fault, t) ∧ t = s) ∨
        ∃ r u, (takeReading own handed cascade).on s = (.ok r, u) ∧
          u.documents = s.documents ∧ (own = none → u = s) ∧
          ((Action.toWrite operand r).on u).2 = t ∧
          ((∀ rules, operand ≠ some (.derived rules)) → t = u) ∧
          ((Action.toWrite operand r).on u = (.error fault, t) ∨
            ∃ failure, fault = .domain (.cannotSet path failure) ∧ failure.OfPath path)) := by
  obtain ⟨documents, hnamed⟩ := hs.exists_namedAs
  constructor
  · intro point hpoint value
    refine ⟨?_, editAt_on path point value s⟩
    have hspelled := hpoint.spelled_and_anchored.1
    rw [writeAt_on]
    rcases Session.write_cases hnamed.contains_current path hspelled value.toJson with
      ⟨failure, hfailure, hwrite⟩ | ⟨place, doc, old, doc', hplace, hdoc, hset, hwrite⟩
    · obtain ⟨cause, hcause, hpath⟩ :=
        Session.error_of_write hnamed.contains_current hspelled hwrite
      cases hcause
      rw [hwrite]
      exact .inl ⟨failure, hfailure, hpath, rfl⟩
    · rw [hwrite]
      refine .inr ⟨place, doc, old, doc', _, hplace, hdoc, hset, rfl, rfl, ?_, ?_⟩
      · exact Table.lookup_put_self _ _ _
      · intro id hid
        exact Table.lookup_put_of_ne _ _ hid
  · intro own operand handed cascade fault t hhanded h
    rcases Rule.run_set_eq_error h with hreading | ⟨r, u, hr, hrest⟩
    · exact .inl ⟨hreading, takeReading_eq_error hreading⟩
    obtain ⟨hkept, hpathless⟩ := documents_of_takeReading hr
    have hleft : ((Action.toWrite operand r).on u).2 = t := by
      rcases hrest with hfails | ⟨written, hwritten, -⟩
      · rw [hfails]
      · rw [hwritten]
    refine .inr ⟨r, u, hr, hkept, hpathless, hleft, ?_, ?_⟩
    · intro hoperand
      rw [← hleft, Action.toWrite_on hoperand]
    · rcases hrest with hfails | ⟨written, -, hwrite⟩
      · exact .inl hfails
      · -- The rules of the operand have kept the current document among those that there are.
        have law := Session.namedAs_lasting documents
        have hread : u.NamedAs documents := by
          have hnow := law.takeReading own handed cascade s hnamed
          rwa [hr] at hnow
        have hfound : t.NamedAs documents := by
          rw [← hleft]
          exact law.toWrite operand r u hread
        have hspelled := takeReading_spelled hr fun p hp => (hhanded p hp).spelled_and_anchored.1
        exact .inr (Session.error_of_write hfound.contains_current hspelled hwrite)

/-- Goes to document `B`, sets `f` in document `A`, and then sets a field of `n`, which has none. -/
def Rule.misplacing : Rule :=
  .action (some "B") (.set "A/n/x" (some (.derived
    [.action none (.set "A/f" (some (.literal (.bool true))))])))

/-- The rule over its two documents, with `A` the primary one. -/
def Evaluator.misplacing : Evaluator where
  rules := [.misplacing]
  primary := "A"
  documents := ⟨"A", [("$vars", .obj []), ("A", .obj [("$id", .str "A"), ("n", .bool true)]),
    ("B", .obj [("$id", .str "B")])]⟩

/-- In the session in which the run has come to `B`, the write that fails changes nothing and the
other one nothing of `B`. The rule fails and leaves what the rules for its value have left. -/
theorem Evaluator.misplacing_writes :
    Evaluator.new [.misplacing] [.obj [("$id", .str "A"), ("n", .bool true)],
        .obj [("$id", .str "B")]] none = .ok .misplacing ∧
    (∃ s ∈ Evaluator.misplacing.sessionsTimes 1, s.current = "B" ∧
      (∃ failure, s.CannotWrite "A/n/x" .documentRoot failure ∧
        (writeAt "A/n/x" .documentRoot (.json .null)).on s =
          (.error (.domain (.cannotSet "A/n/x" failure)), s)) ∧
      ∃ t, (writeAt "A/f" .documentRoot (.json .null)).on s = (.ok ⟨⟩, t) ∧ t.current = "B" ∧
        t.documents.get? "B" = s.documents.get? "B") ∧
    ∃ r u fault t, (takeReading (some "B") none .undefined).on Evaluator.misplacing.start =
        (.ok r, u) ∧
      (Rule.misplacing.run none .undefined).on Evaluator.misplacing.start = (.error fault, t) ∧
      ((Action.toWrite (some (.derived
        [.action none (.set "A/f" (some (.literal (.bool true))))])) r).on u).2 = t ∧
      t.documents.get? "A" =
        some (.obj [("$id", .str "A"), ("f", .bool true), ("n", .bool true)]) := by
  have hnew : Evaluator.new [.misplacing] [.obj [("$id", .str "A"), ("n", .bool true)],
    .obj [("$id", .str "B")]] none = .ok .misplacing := rfl
  refine ⟨hnew, ?_, ?_⟩
  · -- The session behind the reading of the rule's own path.
    have hs := List.mem_of_getElem? (l := Evaluator.misplacing.sessionsTimes 1) (i := 4) rfl
    have hreached : Session.Reached _ := ⟨_, _, _, _, 1, hnew, hs⟩
    refine ⟨_, hs, rfl, ?_, ?_⟩
    · rcases ((Session.writes_whole_or_not hreached "A/n/x").1 .documentRoot .root
        (.json .null)).1 with ⟨failure, hfailure, -, hfails⟩ | ⟨_, _, _, _, _, _, _, _, hdone, -⟩
      · exact ⟨failure, hfailure, hfails⟩
      · cases hdone
    · rcases ((Session.writes_whole_or_not hreached "A/f").1 .documentRoot .root
        (.json .null)).1 with
        ⟨_, _, _, hfails⟩ | ⟨_, _, _, _, t, hplace, _, _, hdone, hcurrent, _, hother⟩
      · cases hfails
      · cases hplace
        exact ⟨t, hdone, hcurrent, hother "B" (by decide)⟩
  · have hreached : Evaluator.misplacing.start.Reached :=
      ⟨_, _, _, _, 0, hnew, List.mem_singleton.mpr rfl⟩
    obtain ⟨fault, t, hrun⟩ : ∃ fault t,
      (Rule.misplacing.run none .undefined).on Evaluator.misplacing.start = (.error fault, t) :=
        ⟨_, _, rfl⟩
    rcases (Session.writes_whole_or_not hreached "A/n/x").2 (some "B") _ none .undefined fault t
      (fun p hp => absurd hp (by simp)) hrun with ⟨hfails, -⟩ | ⟨r, u, hr, -, -, hleft, -, -⟩
    · cases hfails
    · refine ⟨r, u, fault, t, hr, hrun, hleft, ?_⟩
      cases hrun
      rfl

end DocumentRules
