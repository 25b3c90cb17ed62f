import DocumentRules.Proofs.Evaluation.Current
import DocumentRules.Proofs.Pointer.Spelling

/-!
# Traces are histories

A trace is a list of events, and nothing in its definition keeps it from leaving one out. That it
does not is the statement of this module: the events of a step are a `History` of the documents,
from those that the step started with to those that it left. In a history each event is *sound*: it
reads what stands at the place its path leads to, or writes there. And it starts from the documents
that the one before it left. A write that a trace forgot would be a gap, and there are none
(`Rule.trace_records`).

Two facts about the sites go through the same induction, and are part of what makes an event sound:
the current document is that of the site's `guide`, and the points are spelled by their keys.
-/

set_option autoImplicit false

namespace DocumentRules

/-! ## Sound events -/

/-- A site fits the current document if it is the one of its guide. Its point is spelled. -/
structure Site.Fits (site : Site) (current : String) : Prop where
  guide : ∀ place, site.guide = some place → place.document = current
  spelled : ∀ place, site.place = some place → place.point.Spelled

namespace Event

/-- The documents that the event starts with. -/
def documents : Event → Documents
  | .called _ _ _ s => s.documents
  | .read _ _ _ _ s => s.documents
  | .wrote _ _ _ _ before _ => before.documents

/-- The documents that the event leaves. -/
def documentsAfter : Event → Documents
  | .called _ _ _ s => s.documents
  | .read _ _ _ _ s => s.documents
  | .wrote _ _ _ _ _ after => after.documents

/-- The event happened as it says. -/
def Sound : Event → Prop
  | .called _ site _ s => site.Fits s.current
  | .read path site place value s => site.Fits s.current ∧
      s.locate path site.point = .ok place ∧ value = s.valueAt place
  | .wrote path site place value before after => site.Fits before.current ∧
      ∃ origin, site.place = some origin ∧
        before.locate path (some origin.point) = .ok place ∧
        before.write path origin.point value = .ok after

end Event

/-- Sound events, each of which starts with the documents that the one before it left. -/
inductive History : Documents → List Event → Documents → Prop where
  | nil (documents : Documents) : History documents [] documents
  | cons {event : Event} {events : List Event} {first last : Documents} (sound : event.Sound)
      (start : event.documents = first) (rest : History event.documentsAfter events last) :
      History first (event :: events) last

namespace History

variable {first middle last : Documents} {xs ys : List Event}

theorem append (h : History first xs middle) (h' : History middle ys last) :
    History first (xs ++ ys) last := by
  induction h with
  | nil documents => exact h'
  | cons sound start _ ih => exact .cons sound start (ih h')

theorem split (h : History first (xs ++ ys) last) :
    ∃ middle, History first xs middle ∧ History middle ys last := by
  induction xs generalizing first with
  | nil => exact ⟨first, .nil first, h⟩
  | cons event xs ih =>
    cases h with
    | cons sound start rest =>
      obtain ⟨middle, hxs, hys⟩ := ih rest
      exact ⟨middle, .cons sound start hxs, hys⟩

theorem sound {event : Event} (h : History first xs last) (hmem : event ∈ xs) : event.Sound := by
  induction h with
  | nil documents => exact absurd hmem List.not_mem_nil
  | cons sound _ _ ih =>
    rcases List.mem_cons.mp hmem with rfl | hmem
    · exact sound
    · exact ih hmem

end History

/-! ## Sites along a run -/

theorem Session.spelled_of_follow {s : Session} {path document : String} {trail : List Point}
    {target : Point} (h : s.follow path trail = .ok (document, target))
    (htrail : ∀ q ∈ trail, q.Spelled) : target.Spelled := by
  obtain ⟨tokens, -, -, ⟨rest, -, htarget⟩ | ⟨-, -, htarget⟩⟩ := Session.follow_eq_ok.mp h
  · exact Pointer.spelled_of_resolve (by simp) htarget
  · exact Pointer.spelled_of_resolve htrail htarget

theorem exists_trailOf {point : Option Point} (hpoint : ∀ p, point = some p → p.Spelled) :
    ∃ trail, trailOf point = .ok trail := by
  cases point with
  | none => exact ⟨[], rfl⟩
  | some p => exact ⟨_, trailOf_some_eq_ok.mpr (hpoint p rfl).trail⟩

theorem spelled_of_trailOf {point : Option Point} {trail : List Point}
    (hpoint : ∀ p, point = some p → p.Spelled) (htrail : trailOf point = .ok trail) :
    ∀ q ∈ trail, q.Spelled := by
  intro q hq
  cases point with
  | none =>
    rw [trailOf, Except.ok.injEq] at htrail
    rw [← htrail] at hq
    exact absurd hq List.not_mem_nil
  | some p =>
    exact (hpoint p rfl).of_mem_trail (trailOf_some_eq_ok.mp htrail) hq

theorem Session.spelled_of_locate {s : Session} {path : String} {point : Option Point}
    {place : Place} (h : s.locate path point = .ok place)
    (hpoint : ∀ p, point = some p → p.Spelled) : place.point.Spelled := by
  obtain ⟨trail, above, htrail, hfollow, -⟩ := Session.locate_eq_ok.mp h
  exact Session.spelled_of_follow hfollow (spelled_of_trailOf hpoint htrail)

/-- From a spelled point every path that can be followed leads to a place. -/
theorem Session.locate_of_follow {s : Session} {path document : String} {trail : List Point}
    {point target : Point} (hpoint : point.Spelled) (htrail : point.trail = .ok trail)
    (h : s.follow path trail = .ok (document, target)) :
    s.locate path (some point) = .ok ⟨document, target⟩ := by
  have htarget : target.Spelled :=
    Session.spelled_of_follow h fun q hq => hpoint.of_mem_trail htrail hq
  exact Session.locate_eq_ok.mpr
    ⟨trail, target.lineage.reverse, trailOf_some_eq_ok.mpr htrail, h, htarget.trail⟩

namespace Site

variable {site : Site} {s t : Session}

theorem Fits.point_spelled (h : site.Fits s.current) :
    ∀ p, site.point = some p → p.Spelled := by
  intro p hp
  obtain ⟨place, hplace, rfl⟩ := Option.map_eq_some_iff.mp hp
  exact h.spelled place hplace

/-- A new site at a place that a path has led to. -/
theorem Fits.of_locate {path : String} {place : Place} (h : site.Fits s.current)
    (hplace : s.locate path site.point = .ok place) :
    Fits ⟨some place, none⟩ place.document := by
  refine ⟨fun p hp => ?_, fun p hp => ?_⟩
  · cases hp
    rfl
  · cases hp
    exact Session.spelled_of_locate hplace h.point_spelled

/-- The site inside a rule is one for the reading. -/
theorem Fits.entered {path : Option String} {cascade : Value} {r : Reading}
    (h : site.Fits s.current)
    (hr : (takeReading path site.point cascade).on s = (.ok r, t)) :
    (site.entered (s.landing path site.point)).Fits t.current ∧
      (site.entered (s.landing path site.point)).point = some r.point := by
  rcases takeReading_eq_ok hr with ⟨own, place, rfl, hplace, rfl, rfl⟩ | ⟨rfl, hpoint, -, rfl⟩
  · rw [Session.landing_of_locate hplace]
    exact ⟨h.of_locate hplace, rfl⟩
  · exact ⟨h, hpoint⟩

theorem Fits.moved {current : String} {point : Point} (h : site.Fits current)
    (hpoint : point.Spelled) : (site.moved point).Fits current := by
  obtain ⟨place, latest⟩ := site
  refine ⟨fun p hp => ?_, fun p hp => ?_⟩
  · cases latest with
    | some l => exact h.guide p hp
    | none =>
      obtain ⟨q, hq, rfl⟩ := Option.map_eq_some_iff.mp hp
      exact h.guide q hq
  · obtain ⟨q, -, rfl⟩ := Option.map_eq_some_iff.mp hp
    exact hpoint

theorem point_moved {point p : Point} (h : site.point = some p) :
    (site.moved point).point = some point := by
  obtain ⟨place, hplace, -⟩ := Option.map_eq_some_iff.mp h
  simp [Site.moved, Site.point, hplace]

/-- After a rule the site fits the document that the rule has moved to. -/
theorem Fits.passed {rule : Rule} {cascade : Value} {o : Outcome} (h : site.Fits s.current)
    (hrun : (rule.run site.point cascade).on s = (.ok o, t)) :
    (site.passed (s.landing rule.path? site.point)).Fits t.current := by
  refine ⟨fun p hp => ?_, h.spelled⟩
  -- The rule may have run others inside; only its own path decides.
  rw [Rule.current_of_run hrun]
  cases hland : s.landing rule.path? site.point with
  | none =>
    rw [hland] at hp
    exact h.guide p (by simpa [Site.guide, Site.passed] using hp)
  | some place =>
    rw [hland] at hp
    have hp : some place = some p := by simpa [Site.guide, Site.passed] using hp
    rw [Option.some.inj hp]
    rfl

end Site

theorem Reading.elementPoint_spelled {r : Reading} (h : r.point.Spelled) (i : Nat)
    (element : Json) : (r.elementPoint i element).Spelled := by
  unfold Reading.elementPoint
  split
  · exact h.child _
  · exact h.descend _ _

/-! ## Steps that record what they do -/

/-- A step that leaves the documents alone, whether it succeeds or not. -/
def Run.Quiet {α : Type} (step : Run α) : Prop :=
  ∀ s, (step.on s).2.documents = s.documents

namespace Run

variable {α β : Type}

theorem Quiet.pure (a : α) : (Pure.pure a : Run α).Quiet :=
  fun _ => rfl

theorem Quiet.ofExcept (result : Except Fault α) : (Run.ofExcept result).Quiet :=
  fun _ => rfl

theorem Quiet.bind {step : Run α} {next : α → Run β} (hstep : step.Quiet)
    (hnext : ∀ a, (next a).Quiet) : (step >>= next).Quiet := by
  intro s
  have h := hstep s
  rw [Run.on_bind]
  generalize step.on s = result at h ⊢
  obtain ⟨_ | a, t⟩ := result
  · exact h
  · exact (hnext a t).trans h

end Run

namespace Trace

variable {α β : Type} {s : Session}

/-- The events lead from the documents that the step starts with to those that it leaves. -/
def Records (events : Trace) (step : Run α) (s : Session) : Prop :=
  History s.documents (events s) (step.on s).2.documents

theorem Records.silent {step : Run α} (h : step.Quiet) (s : Session) :
    Trace.silent.Records step s := by
  show History s.documents [] _
  rw [h s]
  exact .nil _

theorem Records.andThen {events : Trace} {step : Run α} {after : α → Trace} {next : α → Run β}
    (h : events.Records step s)
    (hnext : ∀ a t, step.on s = (.ok a, t) → (after a).Records (next a) t) :
    (events.andThen step after).Records (step >>= next) s := by
  unfold Records Trace.andThen at *
  rw [Run.on_bind]
  generalize hresult : step.on s = result at h hnext
  obtain ⟨result, t⟩ := result
  cases result with
  | ok a => exact h.append (hnext a t rfl)
  | error fault =>
    rw [List.append_nil]
    exact h

/-- What follows a step and does nothing to the documents needs no events. -/
theorem Records.bind_quiet {events : Trace} {step : Run α} {next : α → Run β}
    (h : events.Records step s) (hnext : ∀ a, (next a).Quiet) :
    events.Records (step >>= next) s := by
  unfold Records at *
  rw [Run.on_bind]
  generalize step.on s = result at h ⊢
  obtain ⟨_ | a, t⟩ := result
  · exact h
  · show History _ _ ((next a).on t).2.documents
    rw [hnext a t]
    exact h

theorem Records.inSameDocument {events : Trace} {step : Run α} (h : events.Records step s) :
    events.Records (Run.inSameDocument step) s := by
  unfold Records at *
  rw [Run.on_inSameDocument]
  generalize step.on s = result at h ⊢
  obtain ⟨_ | a, t⟩ := result <;> exact h

theorem Records.each {events : Nat → Json → Trace} {step : Nat → Json → Run α} {current : String}
    (hstays : ∀ i element, (step i element).Stays)
    (h : ∀ i element s, s.current = current → (events i element).Records (step i element) s)
    (items : List Json) :
    ∀ i s, s.current = current → (Trace.each events step i items).Records
      (eachElement step i items) s := by
  induction items with
  | nil => intro i s _; exact .silent (.pure []) s
  | cons element rest ih =>
    intro i s hs
    unfold Trace.each eachElement
    refine (h i element s hs).andThen fun a t ha => ?_
    exact (ih (i + 1) t ((hstays i element s a t ha).trans hs)).bind_quiet fun _ => .pure _

theorem Records.any {events : Nat → Json → Trace} {step : Nat → Json → Run Bool} {current : String}
    (hstays : ∀ i element, (step i element).Stays)
    (h : ∀ i element s, s.current = current → (events i element).Records (step i element) s)
    (items : List Json) :
    ∀ i s, s.current = current → (Trace.any events step i items).Records
      (anyElement step i items) s := by
  induction items with
  | nil => intro i s _; exact .silent (.pure false) s
  | cons element rest ih =>
    intro i s hs
    unfold Trace.any anyElement
    refine (h i element s hs).andThen fun found t hfound => ?_
    cases found with
    | true => exact .silent (.pure true) t
    | false => exact ih (i + 1) t ((hstays i element s false t hfound).trans hs)

theorem Records.reading {path : Option String} {site : Site} {cascade : Value}
    (h : site.Fits s.current) :
    (Trace.reading path site).Records (takeReading path site.point cascade) s := by
  unfold Records Trace.reading
  cases path with
  | none =>
    cases hpoint : site.point with
    | none => exact .nil _
    | some point =>
      rw [takeReading_none_on]
      cases trailOf (some point) <;> exact .nil _
  | some path =>
    rw [takeReading_path_on]
    dsimp only
    cases hplace : s.locate path site.point with
    | error fault => exact .nil _
    | ok place => exact .cons ⟨h, hplace, rfl⟩ rfl (.nil _)

/-- A write that goes through is in the trace: the point it starts from is spelled, so the place it
leads to is one that could be read. -/
theorem Records.writing {path : String} {site : Site} {point : Point} {value : Value}
    (h : site.Fits s.current) (hpoint : site.point = some point) :
    (Trace.writing path site point value).Records (writeAt path point value) s := by
  unfold Records Trace.writing
  rw [writeAt_on]
  cases hwrite : s.write path point value.toJson with
  | error fault =>
    cases s.locate path (some point) <;> exact .nil _
  | ok t =>
    obtain ⟨origin, horigin, rfl⟩ := Option.map_eq_some_iff.mp hpoint
    obtain ⟨trail, document, target, _, _, _, htrail, hfollow, _, _, _⟩ :=
      Session.write_eq_ok.mp hwrite
    have hplace := Session.locate_of_follow (h.spelled origin horigin) htrail hfollow
    rw [hplace]
    exact .cons ⟨h, origin, horigin, hplace, hwrite⟩ rfl (.nil _)

/-- Rules that record what they do at every point do so for every element of an array. -/
theorem Records.elements {site : Site} {r : Reading} {rules : List Rule} (h : site.Fits s.current)
    (hpoint : site.point = some r.point)
    (hrules : ∀ (site : Site) point value (s : Session), site.Fits s.current →
      site.point = some point →
      (Rule.traceSteps rules site value).Records (Rule.runSteps rules point value) s)
    (items : List Json) :
    (Trace.each
      (fun i element =>
        Rule.traceSteps rules (site.moved (r.elementPoint i element)) (.json element))
      (fun i element => Run.inSameDocument
        (Rule.runSteps rules (r.elementPoint i element) (.json element))) 0 items).Records
      (eachElement (fun i element => Run.inSameDocument
        (Rule.runSteps rules (r.elementPoint i element) (.json element))) 0 items) s := by
  refine Records.each (fun _ _ => .inSameDocument _) (fun i element u hu => ?_) items 0 s rfl
  have hspelled := Reading.elementPoint_spelled (h.point_spelled _ hpoint) i element
  exact (hrules _ _ _ u (hu ▸ h.moved hspelled) (Site.point_moved hpoint)).inSameDocument

end Trace

/-! ## The induction along the rules -/

open Trace

mutual

/-- **The trace of a rule records its run.** -/
theorem Rule.trace_records (rule : Rule) (site : Site) (cascade : Value) (s : Session)
    (h : site.Fits s.current) :
    (rule.trace site cascade).Records (rule.run site.point cascade) s := by
  match rule with
  -- A group adds nothing to the events of its rules but the call itself.
  | .group operator rules =>
    simp only [Rule.run]
    refine Records.bind_quiet ?_ fun verdict => .pure _
    exact .cons h rfl
      (Rule.traceGroup_records rules operator site cascade s h).inSameDocument
  | .path path =>
    simp only [Rule.run]
    exact .cons h rfl ((Records.reading h).bind_quiet fun r => .pure _)
  | .action path action =>
    simp only [Rule.run]
    refine .cons h rfl ((Records.reading h).andThen fun r t hr => ?_)
    obtain ⟨hfits, hpoint⟩ := h.entered hr
    exact Action.trace_records action _ r t hfits hpoint
termination_by structural rule

theorem Rule.traceGroup_records (rules : List Rule) (operator : Connective) (site : Site)
    (cascade : Value) (s : Session) (h : site.Fits s.current) :
    (Rule.traceGroup rules operator site cascade).Records
      (Rule.runGroup rules operator site.point cascade) s := by
  match rules with
  | [] => exact Records.silent (.pure _) s
  | rule :: rest =>
    simp only [Rule.runGroup]
    refine (Rule.trace_records rule site cascade s h).andThen fun o t ho => ?_
    split
    · exact Records.silent (.pure _) t
    · exact Rule.traceGroup_records rest operator (site.passed _) cascade t (h.passed ho)
termination_by structural rules

theorem Rule.traceSteps_records (rules : List Rule) (site : Site) (point : Point)
    (cascade : Value) (s : Session) (h : site.Fits s.current) (hpoint : site.point = some point) :
    (Rule.traceSteps rules site cascade).Records (Rule.runSteps rules point cascade) s := by
  match rules with
  | [] => exact Records.silent (.pure _) s
  | rule :: rest =>
    simp only [Rule.runSteps]
    -- The point stays for the next rule, and so does the site but for its latest place.
    rw [← hpoint]
    refine (Rule.trace_records rule site cascade s h).andThen fun o t ho => ?_
    exact Rule.traceSteps_records rest (site.passed _) point o.value t (h.passed ho) hpoint
termination_by structural rules

theorem Action.trace_records (action : Action) (site : Site) (r : Reading) (s : Session)
    (h : site.Fits s.current) (hpoint : site.point = some r.point) :
    (action.trace site r).Records (action.run r) s := by
  match action with
  | .standalone operator | .cast target | .length | .slice first last | .splice first deleted items
  | .aggregate operator | .selfArithmetic operator =>
    simp only [Action.run]
    exact Records.silent ((Run.Quiet.ofExcept _).bind fun _ => .pure _) s
  | .sort keys comparison =>
    simp only [Action.run]
    refine (Records.silent (.ofExcept _) s).andThen fun items t hitems => ?_
    obtain ⟨-, rfl⟩ := Run.on_ofExcept_eq_ok.mp hitems
    exact (Records.elements h hpoint (Rule.traceSteps_records keys) items).bind_quiet fun _ =>
      (Run.Quiet.ofExcept _).bind fun _ => .pure _
  | .inspect operator none =>
    simp only [Action.run]
    exact Records.silent ((Run.Quiet.ofExcept _).bind fun _ => .ofExcept _) s
  | .inspect operator (some rules) =>
    simp only [Action.run]
    refine (Records.silent (.ofExcept _) s).andThen fun items t hitems => ?_
    obtain ⟨-, rfl⟩ := Run.on_ofExcept_eq_ok.mp hitems
    exact (Records.elements h hpoint (Rule.traceSteps_records rules) items).bind_quiet fun _ =>
      .pure _
  | .contains none =>
    simp only [Action.run]
    exact Records.silent ((Run.Quiet.ofExcept _).bind fun _ => .pure _) s
  | .contains (some wanted) =>
    simp only [Action.run]
    refine (Records.silent (.ofExcept _) s).andThen fun items t hitems => ?_
    obtain ⟨-, rfl⟩ := Run.on_ofExcept_eq_ok.mp hitems
    refine Records.bind_quiet (Records.any
      (fun _ _ => (wanted.run_stays _ _).bind fun _ => .pure _) (fun i element u hu => ?_)
      items 0 s rfl) fun _ => .pure _
    have hspelled := Reading.elementPoint_spelled (h.point_spelled _ hpoint) i element
    exact (Operand.trace_records wanted _ _ _ u (hu ▸ h.moved hspelled)
      (Site.point_moved hpoint)).bind_quiet fun _ => .pure _
  | .set path none =>
    simp only [Action.run]
    exact (Records.writing h hpoint).bind_quiet fun _ => .pure _
  | .set path (some operand) =>
    simp only [Action.run]
    refine (Operand.trace_records operand site r.point _ s h hpoint).andThen fun value t ht => ?_
    -- The operand comes back, so the write starts in the document that the reading left.
    have hfits : site.Fits t.current := by
      rw [operand.run_stays _ _ s value t ht]
      exact h
    exact (Records.writing hfits hpoint).bind_quiet fun _ => .pure _
  | .binary operator operand =>
    simp only [Action.run]
    exact (Operand.trace_records operand site r.point _ s h hpoint).bind_quiet fun _ =>
      (Run.Quiet.ofExcept _).bind fun _ => .pure _
termination_by structural action

theorem Operand.trace_records (operand : Operand) (site : Site) (point : Point) (value : Value)
    (s : Session) (h : site.Fits s.current) (hpoint : site.point = some point) :
    (operand.trace site value).Records (operand.run point value) s := by
  match operand with
  | .literal literal => exact Records.silent (.pure _) s
  | .derived rules =>
    simp only [Operand.run]
    exact (Rule.traceSteps_records rules site point value s h hpoint).inSameDocument
termination_by structural operand

end

/-! ## Whole runs -/

theorem Site.place_entered (site : Site) (landing : Option Place) :
    (site.entered landing).place = (landing <|> site.place) := by
  cases landing <;> rfl

/-- The point that a rule hands on is spelled, and there is a place it belongs to. -/
theorem Rule.point_of_run {rule : Rule} {site : Site} {cascade : Value} {s t : Session}
    {o : Outcome} {p : Point} (h : site.Fits s.current)
    (hrun : (rule.run site.point cascade).on s = (.ok o, t)) (hp : o.point = some p) :
    p.Spelled ∧ ∃ home, (s.landing rule.path? site.point <|> site.place) = some home := by
  have hreading : ∀ {path : Option String} {r : Reading} {u : Session},
      (takeReading path site.point cascade).on s = (.ok r, u) → r.point.Spelled ∧
        ∃ home, (s.landing path site.point <|> site.place) = some home := by
    intro path r u hr
    obtain ⟨hfits, hpoint⟩ := h.entered hr
    obtain ⟨home, hhome, -⟩ := Option.map_eq_some_iff.mp hpoint
    exact ⟨hfits.point_spelled _ hpoint, home, site.place_entered _ ▸ hhome⟩
  cases rule with
  | group operator rules =>
    simp only [Rule.run] at hrun
    obtain ⟨verdict, u, -, hpure⟩ := Run.on_bind_eq_ok.mp hrun
    rw [← (Run.on_pure_eq_ok.mp hpure).1] at hp
    obtain ⟨home, hhome, -⟩ := Option.map_eq_some_iff.mp hp
    exact ⟨h.point_spelled p hp, home, hhome⟩
  | path path =>
    simp only [Rule.run] at hrun
    obtain ⟨r, u, hr, hpure⟩ := Run.on_bind_eq_ok.mp hrun
    rw [← (Run.on_pure_eq_ok.mp hpure).1, Option.some.injEq] at hp
    rw [← hp]
    exact hreading hr
  | action path action =>
    simp only [Rule.run] at hrun
    obtain ⟨r, u, hr, haction⟩ := Run.on_bind_eq_ok.mp hrun
    obtain ⟨hspelled, hhome⟩ := hreading hr
    refine ⟨?_, hhome⟩
    rcases action.run_yields r u o t haction with ho | ⟨value, ho⟩
    · rw [ho, Option.some.injEq] at hp
      rwa [← hp]
    · rw [ho, Option.some.injEq] at hp
      rw [← hp]
      exact hspelled.carrying value

theorem Rule.traceAll_records (rules : List Rule) :
    ∀ (place : Option Place) (outcome : Outcome) (s : Session),
      (⟨place, none⟩ : Site).Fits s.current → place.map Place.point = outcome.point →
      (Rule.traceAll rules place outcome.value).Records (Rule.runAll rules outcome) s := by
  induction rules with
  | nil => intro place outcome s _ _; exact Records.silent (.pure _) s
  | cons rule rest ih =>
    intro place outcome s h hpoint
    unfold Rule.runAll
    rw [← hpoint]
    refine (Rule.trace_records rule ⟨place, none⟩ outcome.value s h).andThen fun o t ho => ?_
    have hpassed := h.passed ho
    refine ih _ o t ⟨fun p hp => ?_, fun p hp => ?_⟩ ?_
    · obtain ⟨home, hhome, hmap⟩ := Option.bind_eq_some_iff.mp hp
      obtain ⟨point, -, rfl⟩ := Option.map_eq_some_iff.mp hmap
      refine hpassed.guide home ?_
      simpa [Site.guide, Site.passed, Site.point] using hhome
    · obtain ⟨home, -, hmap⟩ := Option.bind_eq_some_iff.mp hp
      obtain ⟨point, hopoint, rfl⟩ := Option.map_eq_some_iff.mp hmap
      exact (Rule.point_of_run h ho hopoint).1
    · cases hopoint : o.point with
      | none => cases (s.landing rule.path? (place.map Place.point) <|> place) <;> rfl
      | some p =>
        obtain ⟨home, hhome⟩ := (Rule.point_of_run h ho hopoint).2
        have hhome : (s.landing rule.path? (place.map Place.point) <|> place) = some home := hhome
        rw [hhome]
        rfl

/-- **The trace of a run is its history**, from the documents it starts with to those it leaves. -/
theorem Evaluator.history (evaluator : Evaluator) :
    History evaluator.documents evaluator.trace evaluator.run.2.documents := by
  refine Rule.traceAll_records evaluator.rules none ⟨.undefined, none⟩
    ⟨evaluator.documents, evaluator.primary⟩ ⟨?_, ?_⟩ rfl
  · intro place h
    exact absurd h (by simp [Site.guide])
  · intro place h
    exact absurd h (by simp)

end DocumentRules
