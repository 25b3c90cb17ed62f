import DocumentRules.Evaluation.Cascade
import DocumentRules.Proofs.Pointer.Segments
import DocumentRules.Proofs.Pointer.Spelling

/-!
# Steps as functions on sessions

A step of a run is a function: it takes a session and gives a result or a fault, together with the
session it leaves. `Run.on` is that function, and the lemmas of the first section say what it is for
each way of putting steps together. Everything after them is stated about `Run.on`, and no later
proof looks at how a step is represented.

The second section inverts the same equations for a step that succeeds, the third says what the
steps of a rule that look at the session do with it.
-/

set_option autoImplicit false

namespace DocumentRules

namespace Run

variable {α β : Type}

/-- What a step makes of a session. -/
def on (step : Run α) (s : Session) : Except Fault α × Session :=
  step.run.run s

@[simp] theorem on_pure (a : α) (s : Session) : (pure a : Run α).on s = (.ok a, s) := rfl

@[simp] theorem on_ofExcept (result : Except Fault α) (s : Session) :
    (ofExcept result).on s = (result, s) := rfl

@[simp] theorem on_fail (fault : Fault) (s : Session) :
    (fail fault : Run α).on s = (.error fault, s) := rfl

@[simp] theorem on_get (s : Session) : (get : Run Session).on s = (.ok s, s) := rfl

@[simp] theorem on_set (s t : Session) : (set t : Run PUnit).on s = (.ok ⟨⟩, t) := rfl

@[simp] theorem on_modify (f : Session → Session) (s : Session) :
    (modify f : Run PUnit).on s = (.ok ⟨⟩, f s) := rfl

theorem on_bind (step : Run α) (next : α → Run β) (s : Session) :
    (step >>= next).on s =
      match step.on s with
      | (.ok a, t) => (next a).on t
      | (.error fault, t) => (.error fault, t) := by
  show (ExceptT.bind step next).run.run s = _
  simp only [on, ExceptT.bind, ExceptT.run, ExceptT.mk, ExceptT.bindCont, StateT.run, bind,
    StateT.bind]
  rcases step s with ⟨result, t⟩
  cases result <;> rfl

theorem on_bind_eq_ok {step : Run α} {next : α → Run β} {s u : Session} {b : β} :
    (step >>= next).on s = (.ok b, u) ↔
      ∃ a t, step.on s = (.ok a, t) ∧ (next a).on t = (.ok b, u) := by
  rw [on_bind]
  constructor
  · intro h
    split at h
    · next a t hstep => exact ⟨a, t, hstep, h⟩
    · exact absurd h (by simp)
  · rintro ⟨a, t, hstep, hnext⟩
    rw [hstep]
    exact hnext

theorem on_bind_eq_error {step : Run α} {next : α → Run β} {s u : Session} {fault : Fault} :
    (step >>= next).on s = (.error fault, u) ↔ step.on s = (.error fault, u) ∨
      ∃ a t, step.on s = (.ok a, t) ∧ (next a).on t = (.error fault, u) := by
  rw [on_bind]
  constructor
  · intro h
    split at h
    · next a t hstep => exact .inr ⟨a, t, hstep, h⟩
    · next other t hstep =>
      cases h
      exact .inl hstep
  · intro h
    rcases h with hstep | ⟨a, t, hstep, hnext⟩
    · rw [hstep]
    · rw [hstep]
      exact hnext

theorem on_ofExcept_eq_ok {result : Except Fault α} {s t : Session} {a : α} :
    (ofExcept result).on s = (.ok a, t) ↔ result = .ok a ∧ s = t := by
  rw [on_ofExcept, Prod.mk.injEq]

theorem on_pure_eq_ok {a b : α} {s t : Session} :
    (pure a : Run α).on s = (.ok b, t) ↔ a = b ∧ s = t := by
  rw [on_pure, Prod.mk.injEq, Except.ok.injEq]

theorem on_inSameDocument (step : Run α) (s : Session) :
    (inSameDocument step).on s =
      match step.on s with
      | (.ok a, t) => (.ok a, { t with current := s.current })
      | (.error fault, t) => (.error fault, t) := by
  rw [inSameDocument, on_bind, on_get]
  dsimp only
  rw [on_bind]
  rcases step.on s with ⟨result, t⟩
  cases result <;> rfl

theorem on_inSameDocument_eq_ok {step : Run α} {s u : Session} {a : α} :
    (inSameDocument step).on s = (.ok a, u) ↔
      ∃ t, step.on s = (.ok a, t) ∧ u = { t with current := s.current } := by
  rw [on_inSameDocument]
  constructor
  · intro h
    split at h
    · next b t hstep =>
      simp only [Prod.mk.injEq, Except.ok.injEq] at h
      exact ⟨t, by rw [hstep, h.1], h.2.symm⟩
    · exact absurd h (by simp)
  · rintro ⟨t, hstep, rfl⟩
    rw [hstep]

end Run

/-! ## Places -/

theorem trailOf_some_eq_ok {p : Point} {trail : List Point} :
    trailOf (some p) = .ok trail ↔ p.trail = .ok trail :=
  mapError_eq_ok

/-- A point together with the document it was located in. -/
structure Place where
  document : String
  point : Point

/-- The place that a path leads to from a point. Whatever keeps the path from being followed is the
fault of the rule that reads there. -/
def Session.locate (s : Session) (path : String) (point : Option Point) : Except Fault Place := do
  let trail ← trailOf point
  let (document, target) ← (s.follow path trail).mapError Fault.ofLocation
  let _ ← target.trail.mapError (Fault.ofPointer path)
  return ⟨document, target⟩

/-- What stands at a place. -/
def Session.valueAt (s : Session) (place : Place) : Value :=
  s.read place.document place.point

theorem Session.locate_eq_ok {s : Session} {path : String} {point : Option Point} {place : Place} :
    s.locate path point = .ok place ↔ ∃ trail above, trailOf point = .ok trail ∧
      s.follow path trail = .ok (place.document, place.point) ∧
      place.point.trail = .ok above := by
  unfold Session.locate
  simp only [bind_eq_ok, mapError_eq_ok, pure_eq_ok]
  constructor
  · rintro ⟨trail, htrail, ⟨document, target⟩, hfollow, above, habove, rfl⟩
    exact ⟨trail, above, htrail, hfollow, habove⟩
  · rintro ⟨trail, above, htrail, hfollow, habove⟩
    exact ⟨trail, htrail, _, hfollow, above, habove, rfl⟩

/-- Where a path leads: into the document that it names, from the root, or on from where it was
given, in the current one. The document is there in either case. -/
theorem Session.follow_eq_ok {s : Session} {path document : String} {trail : List Point}
    {target : Point} : s.follow path trail = .ok (document, target) ↔
      ∃ tokens, Pointer.parse path = .ok tokens ∧ s.documents.contains document = true ∧
        ((∃ rest, s.namedDocument path tokens = some (document, rest) ∧
            Pointer.resolve rest [] = .ok target) ∨
          s.namedDocument path tokens = none ∧ document = s.current ∧
            Pointer.resolve tokens trail = .ok target) := by
  -- Both ways of reading the path end in one check and one walk.
  have hstart : ∀ (d : String) (tokens : List String) (trail : List Point),
      (if s.documents.contains d then do
        let point ← (Pointer.resolve tokens trail).mapError (LocationFault.badPath path)
        return (d, point)
      else Except.error (.unknownDocument d)) = .ok (document, target) ↔
        s.documents.contains document = true ∧ d = document ∧
          Pointer.resolve tokens trail = .ok target := by
    intro d tokens trail
    by_cases hd : s.documents.contains d
    · simp only [hd, if_true, bind_eq_ok, mapError_eq_ok, pure_eq_ok, Prod.mk.injEq]
      constructor
      · rintro ⟨point, hresolve, rfl, rfl⟩
        exact ⟨hd, rfl, hresolve⟩
      · rintro ⟨-, rfl, hresolve⟩
        exact ⟨target, hresolve, rfl, rfl⟩
    · simp only [hd]
      constructor
      · intro h
        exact absurd h (by simp)
      · rintro ⟨h, rfl, -⟩
        exact absurd h hd
  unfold Session.follow
  rw [bind_eq_ok]
  simp only [mapError_eq_ok]
  refine exists_congr fun tokens => and_congr_right fun _ => ?_
  cases hnamed : s.namedDocument path tokens with
  | none =>
    simp only [hstart]
    constructor
    · rintro ⟨hd, rfl, hresolve⟩
      exact ⟨hd, .inr ⟨trivial, rfl, hresolve⟩⟩
    · rintro ⟨hd, ⟨rest, hrest, -⟩ | ⟨-, rfl, hresolve⟩⟩
      · exact absurd hrest (by simp)
      · exact ⟨hd, rfl, hresolve⟩
  | some named =>
    obtain ⟨d, rest⟩ := named
    simp only [hstart]
    constructor
    · rintro ⟨hd, rfl, hresolve⟩
      exact ⟨hd, .inl ⟨rest, rfl, hresolve⟩⟩
    · rintro ⟨hd, ⟨rest', hrest, hresolve⟩ | ⟨hnone, -⟩⟩
      · rw [Option.some.injEq, Prod.mk.injEq] at hrest
        rw [hrest.2]
        exact ⟨hd, hrest.1, hresolve⟩
      · exact absurd hnone (by simp)

theorem Session.follow_eq_ok_of_parse {s : Session} {path document : String}
    {tokens : List String} (hparse : Pointer.parse path = .ok tokens) {trail : List Point}
    {target : Point} : s.follow path trail = .ok (document, target) ↔
      s.documents.contains document = true ∧
        ((∃ rest, s.namedDocument path tokens = some (document, rest) ∧
            Pointer.resolve rest [] = .ok target) ∨
          s.namedDocument path tokens = none ∧ document = s.current ∧
            Pointer.resolve tokens trail = .ok target) := by
  simp only [Session.follow_eq_ok, hparse, Except.ok.injEq, exists_eq_left']

theorem Session.contains_of_follow {s : Session} {path document : String} {trail : List Point}
    {target : Point} (h : s.follow path trail = .ok (document, target)) :
    s.documents.contains document = true := by
  obtain ⟨_, _, h, _⟩ := Session.follow_eq_ok.mp h
  exact h

theorem Session.get?_of_locate {s : Session} {path : String} {point : Option Point} {place : Place}
    (h : s.locate path point = .ok place) : ∃ doc, s.documents.get? place.document = some doc := by
  obtain ⟨_, _, _, hfollow, _⟩ := Session.locate_eq_ok.mp h
  exact Option.isSome_iff_exists.mp (Session.contains_of_follow hfollow)

theorem Session.trailOf_of_locate {s : Session} {path : String} {point : Option Point}
    {place : Place} (h : s.locate path point = .ok place) :
    ∃ trail, trailOf (some place.point) = .ok trail := by
  obtain ⟨_, above, _, _, habove⟩ := Session.locate_eq_ok.mp h
  exact ⟨above, trailOf_some_eq_ok.mpr habove⟩

/-! ## Paths that name a document -/

/-- A path names a document if it does not start with a slash and its first token is the name of
one. Every other path stays in the current document. -/
def Documents.names (documents : Documents) (path : String) : Bool :=
  match path.toList, Pointer.tokens path.toList with
  | '/' :: _, _ => false
  | _, [] => false
  | _, first :: _ => documents.contains first

theorem Session.namedDocument_eq_none {s : Session} {path : String}
    (h : s.documents.names path = false) :
    s.namedDocument path (Pointer.tokens path.toList) = none := by
  unfold Documents.names at h
  unfold Session.namedDocument
  split
  · rfl
  · rfl
  · next first rest htokens hslash =>
    split at h
    · next hs => exact absurd hs (hslash _)
    · next hnil _ => simp [htokens] at hnil
    · next hcons _ =>
      rw [htokens] at hcons
      rw [← (List.cons.inj hcons).1] at h
      simp [h]

theorem Pointer.tokens_of_parse {path : String} {tokens : List String}
    (h : Pointer.parse path = .ok tokens) : tokens = Pointer.tokens path.toList :=
  (Pointer.parse_eq_ok.mp h).2.2.2.symm

/-- A path that names no document is resolved in the current one, from where it was given. -/
theorem Session.follow_of_not_names {s : Session} {path : String} (trail : List Point)
    (h : s.documents.names path = false) :
    s.follow path trail = (do
      let tokens ← (Pointer.parse path).mapError (LocationFault.badPath path)
      if s.documents.contains s.current then
        let point ← (Pointer.resolve tokens trail).mapError (LocationFault.badPath path)
        return (s.current, point)
      else .error (.unknownDocument s.current)) := by
  unfold Session.follow
  cases hp : Pointer.parse path with
  | error error => rfl
  | ok tokens =>
    simp only [mapError_ok, bind, Except.bind]
    rw [Pointer.tokens_of_parse hp, Session.namedDocument_eq_none h]

/-- Such a path, when it can be followed, leads into the current document. -/
theorem Session.resolve_of_follow {s : Session} {path document : String} {trail : List Point}
    {target : Point} (h : s.follow path trail = .ok (document, target))
    (hpath : s.documents.names path = false) : document = s.current ∧
      Pointer.resolve (Pointer.tokens path.toList) trail = .ok target := by
  obtain ⟨tokens, hparse, _, ⟨rest, hnamed, _⟩ | ⟨_, hcurrent, hresolve⟩⟩ :=
    Session.follow_eq_ok.mp h
  · rw [Pointer.tokens_of_parse hparse, Session.namedDocument_eq_none hpath] at hnamed
    exact absurd hnamed (by simp)
  · rw [Pointer.tokens_of_parse hparse] at hresolve
    exact ⟨hcurrent, hresolve⟩

/-! ## The steps that look at the session -/

/-- A rule with a path reads where the path leads, and makes the document of that place current. -/
theorem takeReading_path_on (path : String) (point : Option Point) (cascade : Value)
    (s : Session) :
    (takeReading (some path) point cascade).on s =
      match s.locate path point with
      | .ok place =>
        (.ok ⟨s.valueAt place, place.point, true⟩, { s with current := place.document })
      | .error fault => (.error fault, s) := by
  rw [takeReading, Run.on_bind, Run.on_ofExcept, Session.locate]
  cases trailOf point with
  | error fault => rfl
  | ok trail =>
    dsimp only
    rw [Run.on_bind, Run.on_get]
    dsimp only
    rw [Run.on_bind, Run.on_ofExcept]
    cases hfollow : (s.follow path trail).mapError Fault.ofLocation with
    | error fault => simp only [bind, Except.bind, hfollow]
    | ok found =>
      obtain ⟨document, target⟩ := found
      dsimp only
      rw [Run.on_bind, Run.on_ofExcept]
      cases htrail : target.trail.mapError (Fault.ofPointer path) with
      | error fault => simp only [bind, Except.bind, hfollow, htrail]
      | ok above =>
        simp only [bind, Except.bind, hfollow, htrail, pure, Except.pure]
        rfl

theorem takeReading_none_on (point : Point) (cascade : Value) (s : Session) :
    (takeReading none (some point) cascade).on s =
      match trailOf (some point) with
      | .ok _ => (.ok ⟨cascade, point, false⟩, s)
      | .error fault => (.error fault, s) := by
  rw [takeReading, Run.on_bind, Run.on_ofExcept]
  cases htrail : trailOf (some point) with
  | error fault => rfl
  | ok trail =>
    have hlast : trail.getLast? = some point := by
      exact Point.getLast?_of_trail (trailOf_some_eq_ok.mp htrail)
    simp only [hlast]
    rfl

theorem takeReading_none_none_on (cascade : Value) (s : Session) :
    (takeReading none none cascade).on s = (.error (.structural .noPoint), s) := rfl

theorem writeAt_on (path : String) (point : Point) (value : Value) (s : Session) :
    (writeAt path point value).on s =
      match s.write path point value.toJson with
      | .ok t => (.ok ⟨⟩, t)
      | .error fault => (.error fault, s) := by
  rw [writeAt, Run.on_bind, Run.on_get]
  dsimp only
  rw [Run.on_bind, Run.on_ofExcept]
  cases s.write path point value.toJson <;> rfl

/-- What a rule works on when it does: what stands where its path leads, or what it was handed. -/
theorem takeReading_eq_ok {path : Option String} {point : Option Point} {cascade : Value}
    {s t : Session} {r : Reading} (h : (takeReading path point cascade).on s = (.ok r, t)) :
    (∃ own place, path = some own ∧ s.locate own point = .ok place ∧
        r = ⟨s.valueAt place, place.point, true⟩ ∧ t = { s with current := place.document }) ∨
      path = none ∧ point = some r.point ∧ r = ⟨cascade, r.point, false⟩ ∧ t = s := by
  cases path with
  | some own =>
    rw [takeReading_path_on] at h
    cases hplace : s.locate own point with
    | error fault => simp [hplace] at h
    | ok place =>
      simp only [hplace, Prod.mk.injEq, Except.ok.injEq] at h
      exact .inl ⟨own, place, rfl, hplace, h.1.symm, h.2.symm⟩
  | none =>
    cases point with
    | none =>
      rw [takeReading_none_none_on] at h
      exact absurd h (by simp)
    | some point =>
      rw [takeReading_none_on] at h
      cases htrail : trailOf (some point) with
      | error fault => simp [htrail] at h
      | ok trail =>
        simp only [htrail, Prod.mk.injEq, Except.ok.injEq] at h
        obtain ⟨rfl, rfl⟩ := h
        exact .inr ⟨rfl, rfl, rfl, rfl⟩

/-- A reading that fails leaves the session as it was. -/
theorem takeReading_eq_error {path : Option String} {point : Option Point} {cascade : Value}
    {s t : Session} {fault : Fault}
    (h : (takeReading path point cascade).on s = (.error fault, t)) : t = s := by
  cases path with
  | some own =>
    rw [takeReading_path_on] at h
    cases hplace : s.locate own point with
    | error other =>
      rw [hplace] at h
      exact (congrArg Prod.snd h).symm
    | ok place => simp [hplace] at h
  | none =>
    cases point with
    | none => exact (congrArg Prod.snd h).symm
    | some point =>
      rw [takeReading_none_on] at h
      cases htrail : trailOf (some point) with
      | error other =>
        rw [htrail] at h
        exact (congrArg Prod.snd h).symm
      | ok trail => simp [htrail] at h

/-- A write that goes through: its path leads into a document, the document takes the value there,
and the session has the new document in place of the old one. -/
theorem Session.write_eq_ok {s t : Session} {path : String} {point : Point} {value : Json} :
    s.write path point value = .ok t ↔
      ∃ trail document target doc old doc', point.trail = .ok trail ∧
        s.follow path trail = .ok (document, target) ∧ s.documents.get? document = some doc ∧
        doc.set target.keys value = .ok (old, doc') ∧
        t = { s with documents := s.documents.put document doc' } := by
  unfold Session.write
  simp only [bind_eq_ok, mapError_eq_ok]
  constructor
  · rintro ⟨trail, htrail, ⟨document, target⟩, hfollow, h⟩
    cases hdoc : s.documents.get? document with
    | none => simp [hdoc] at h
    | some doc =>
      simp only [hdoc, bind_eq_ok, mapError_eq_ok, pure_eq_ok] at h
      obtain ⟨⟨old, doc'⟩, hset, rfl⟩ := h
      exact ⟨trail, document, target, doc, old, doc', htrail, hfollow, hdoc, hset, rfl⟩
  · rintro ⟨trail, document, target, doc, old, doc', htrail, hfollow, hdoc, hset, rfl⟩
    refine ⟨trail, htrail, (document, target), hfollow, ?_⟩
    simp only [hdoc, bind_eq_ok, mapError_eq_ok, pure_eq_ok]
    exact ⟨(old, doc'), hset, rfl⟩

end DocumentRules
