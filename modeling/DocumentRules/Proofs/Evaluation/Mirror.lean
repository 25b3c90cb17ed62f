import DocumentRules.Proofs.Evaluation.Agreement
import DocumentRules.Proofs.Pointer.Carried
import DocumentRules.Proofs.Pointer.Lens
import Mathlib.Data.List.Forall2

/-!
# Reading live and carrying are interchangeable

An element of an array that was read in a document is a live child of the array's point; an element
of an array that was handed on carries itself. As long as nothing writes and no path leads into
another document, no rule can tell the two apart, and that is what this module proves: a rule that
reads an array and works on its elements does the same as a rule that reads the array and another
one that works on what it was handed (`Rule.run_action_eq_read_then_act`).

The two points differ only in where they read. `Point.Mirrors doc` relates points that were reached
by the same keys and of which all pairs on the way, the points themselves included, have one value
in `doc`. It is the last part that carries the argument: `..` returns to a point of the way, so a
relation of the two ends alone would be lost as soon as a rule leaves its element and comes back.
-/

set_option autoImplicit false

namespace DocumentRules

/-! ## Points that mirror each other -/

/-- Two points reached by the same keys, with the same value in `doc` all along the way. -/
inductive Point.Mirrors (doc : Json) : Point → Point → Prop where
  | root {o o' : Origin} (value : (Point.root o).value? doc = (Point.root o').value? doc) :
      Mirrors doc (.root o) (.root o')
  | step {parent parent' : Point} {key path : String} {o o' : Origin}
      (above : Mirrors doc parent parent')
      (value : (Point.step parent key path o).value? doc =
        (Point.step parent' key path o').value? doc) :
      Mirrors doc (.step parent key path o) (.step parent' key path o')

namespace Point

variable {doc : Json} {p q : Point}

theorem Mirrors.refl (doc : Json) (p : Point) : Mirrors doc p p := by
  induction p with
  | root origin => exact .root rfl
  | step parent key path origin ih => exact .step ih rfl

theorem Mirrors.value_eq (h : Mirrors doc p q) : p.value? doc = q.value? doc := by
  cases h with
  | root value => exact value
  | step _ value => exact value

theorem Mirrors.path_eq (h : Mirrors doc p q) : p.path = q.path := by
  cases h <;> rfl

/-- Steps by one key from points that mirror each other, to one value. -/
theorem Mirrors.descend (h : Mirrors doc p q) (key : String) {o o' : Origin}
    (hv : (p.descend key o).value? doc = (q.descend key o').value? doc) :
    Mirrors doc (p.descend key o) (q.descend key o') := by
  unfold Point.descend at hv ⊢
  rw [← h.path_eq] at hv ⊢
  exact .step h hv

theorem value?_descend_carried (p : Point) (key : String) (value : Option Json) (doc : Json) :
    (p.descend key (.carried value)).value? doc = value := rfl

/-- The value of a child is the child of the value, whichever way the points read. -/
theorem value?_child (p : Point) (key : String) (doc : Json) :
    (p.child key).value? doc = (p.value? doc).bind (Json.step? key) := by
  unfold Point.child
  cases ho : p.origin with
  | live =>
    have hp : p.value? doc = doc.get? p.keys := by rw [Point.value?, ho]
    show doc.get? (p.keys ++ [key]) = _
    rw [hp, Json.get?_append]
    exact Option.bind_congr fun v _ => Json.get?_singleton key v
  | carried value =>
    have hp : p.value? doc = value := by rw [Point.value?, ho]
    rw [hp]
    rfl

theorem Mirrors.child (h : Mirrors doc p q) (key : String) :
    Mirrors doc (p.child key) (q.child key) := by
  have hv : (p.child key).value? doc = (q.child key).value? doc := by
    rw [value?_child, value?_child, h.value_eq]
  rw [child_eq, child_eq] at hv ⊢
  exact h.descend key hv

theorem Mirrors.carrying (h : Mirrors doc p q) (value : Option Json) :
    Mirrors doc (p.carrying value) (q.carrying value) := by
  cases h with
  | root _ => exact .root rfl
  | step above _ => exact .step above rfl

/-! ### The way to a point, and the way from it -/

theorem Mirrors.lineage (h : Mirrors doc p q) :
    List.Forall₂ (Mirrors doc) p.lineage q.lineage := by
  induction h with
  | root value => exact .cons (.root value) .nil
  | step above value ih => exact .cons (.step above value) ih

theorem paths_eq_of_forall₂ {ps qs : List Point} (h : List.Forall₂ (Mirrors doc) ps qs) :
    ps.map Point.path = qs.map Point.path := by
  induction h with
  | nil => rfl
  | cons hpq _ ih => rw [List.map_cons, List.map_cons, hpq.path_eq, ih]

end Point

variable {doc : Json}

theorem Point.Mirrors.trail {p q : Point} (h : p.Mirrors doc q) :
    Alike (List.Forall₂ (Point.Mirrors doc)) p.trail q.trail := by
  unfold Point.trail
  rw [Point.paths_eq_of_forall₂ h.lineage]
  split
  · exact .error _
  · exact .ok (List.forall₂_reverse_iff.mpr h.lineage)

/-- Following the same tokens from mirrored points leads to mirrored points. -/
theorem Pointer.walk_alike (tokens : List String) :
    ∀ {above above' : List Point} {p q : Point}, List.Forall₂ (Point.Mirrors doc) above above' →
      p.Mirrors doc q →
      Alike (Point.Mirrors doc) (Pointer.walk tokens above p) (Pointer.walk tokens above' q) := by
  induction tokens with
  | nil => intro above above' p q _ h; exact .ok h
  | cons token rest ih =>
    intro above above' p q habove h
    unfold Pointer.walk
    split
    · cases habove with
      | nil => exact .error _
      | cons hpoint habove => exact ih habove hpoint
    · exact ih (.cons h habove) (h.child token)

theorem Pointer.resolve_alike (tokens : List String) {trail trail' : List Point}
    (h : List.Forall₂ (Point.Mirrors doc) trail trail') :
    Alike (Point.Mirrors doc) (Pointer.resolve tokens trail) (Pointer.resolve tokens trail') := by
  unfold Pointer.resolve
  have hrev := List.forall₂_reverse_iff.mpr h
  generalize trail.reverse = up, trail'.reverse = up' at hrev
  cases hrev with
  | nil => exact Pointer.walk_alike tokens .nil (.refl doc _)
  | cons hlast habove => exact Pointer.walk_alike tokens habove hlast

/-! ## Rules that stay in their document -/

/-- Points of two runs that mirror each other, or no point in either. -/
def Point.MirrorsOption (doc : Json) : Option Point → Option Point → Prop
  | none, none => True
  | some p, some q => p.Mirrors doc q
  | _, _ => False

theorem trailOf_alike {p q : Option Point} (h : Point.MirrorsOption doc p q) :
    Alike (List.Forall₂ (Point.Mirrors doc)) (trailOf p) (trailOf q) := by
  match p, q, h with
  | none, none, _ => exact .ok .nil
  | some p, some q, h => exact h.trail.mapError _

/-- A path that names no document leads to mirrored places of the current one. -/
theorem Session.locate_alike {s : Session} {path : String} (hpath : s.documents.names path = false)
    {p q : Option Point} (h : Point.MirrorsOption doc p q) :
    Alike (fun a b : Place => a.document = s.current ∧ b.document = s.current ∧
      a.point.Mirrors doc b.point) (s.locate path p) (s.locate path q) := by
  unfold Session.locate
  refine (trailOf_alike h).bind fun trail trail' htrail => ?_
  rw [Session.follow_of_not_names trail hpath, Session.follow_of_not_names trail' hpath]
  have hparse := Alike.rfl (R := Eq) (fun _ => Eq.refl _)
    ((Pointer.parse path).mapError (LocationFault.badPath path))
  refine Alike.bind (R := fun a b : String × Point => a.1 = s.current ∧ b.1 = s.current ∧
    a.2.Mirrors doc b.2) ?_ ?_
  · refine (hparse.bind fun tokens tokens' htokens => ?_).mapError _
    subst htokens
    by_cases hcurrent : s.documents.contains s.current
    · simp only [hcurrent, if_true]
      exact ((Pointer.resolve_alike tokens htrail).mapError _).bind
        fun a b hab => .ok ⟨Eq.refl _, Eq.refl _, hab⟩
    · simp only [hcurrent]
      exact .error _
  · rintro ⟨a, p⟩ ⟨b, q⟩ ⟨ha, hb, hpq⟩
    exact (hpq.trail.mapError _).bind fun _ _ _ => .ok ⟨ha, hb, hpq⟩

/-- Two runs in one session whose points mirror each other. A reading that is live has read what
stands at its point. -/
def Agreement.mirrored (s₀ : Session) (doc : Json) : Agreement where
  sessions s t := s = s₀ ∧ t = s₀
  points := Point.MirrorsOption doc
  readings r r' := r.value = r'.value ∧ r.point.Mirrors doc r'.point ∧
    (r.live = true → r.value = .ofOption (r.point.value? doc)) ∧
    (r'.live = true → r'.value = .ofOption (r'.point.value? doc))

/-- The point of an element is a step to it by its position, whether the array was read or not. -/
theorem Reading.elementPoint_eq_descend {r : Reading} {items : List Json} {i : Nat} {element : Json}
    (hvalue : r.value = .ofItems items) (helement : items[i]? = some element)
    (hlive : r.live = true → r.value = .ofOption (r.point.value? doc)) :
    ∃ o, r.elementPoint i element = r.point.descend (toString i) o ∧
      (r.point.descend (toString i) o).value? doc = some element := by
  unfold Reading.elementPoint
  split
  · next hread =>
    have hitems : r.point.value? doc = some (.arr items) := by
      have h := hlive (by simp at hread; exact hread.1)
      rw [hvalue] at h
      cases hv : r.point.value? doc with
      | none => simp [hv, Value.ofOption, Value.ofItems] at h
      | some v => simpa [hv, Value.ofOption, Value.ofItems, eq_comm] using h
    refine ⟨_, Point.child_eq r.point (toString i), ?_⟩
    rw [← Point.child_eq, Point.value?_child, hitems, Option.bind_some, Json.step?_arr_toString,
      helement]
  · exact ⟨_, rfl, Point.value?_descend_carried _ _ _ doc⟩

/-- As long as rules stay in their document and do not write, mirrored points stay mirrored. -/
theorem Agreement.mirrored_lawful {s₀ : Session} (hdoc : s₀.documents.get? s₀.current = some doc) :
    (Agreement.mirrored s₀ doc).Lawful (fun path => s₀.documents.names path = false)
      (fun _ => False) where
  restored := by
    rintro s t s' t' ⟨rfl, rfl⟩ ⟨rfl, rfl⟩
    exact ⟨rfl, rfl⟩
  reading := by
    rintro path p q hpath hpq cascade s t ⟨hs, ht⟩
    rw [hs, ht]
    cases path with
    | none =>
      match p, q, hpq with
      | none, none, _ => exact .error trivial ⟨rfl, rfl⟩
      | some p, some q, hpq =>
        have halike : Alike (List.Forall₂ (Point.Mirrors doc)) (trailOf (some p))
            (trailOf (some q)) := trailOf_alike hpq
        rw [takeReading_none_on, takeReading_none_on]
        generalize trailOf (some p) = x, trailOf (some q) = y at halike
        cases halike with
        | ok _ => exact .ok ⟨rfl, hpq, by simp, by simp⟩ ⟨rfl, rfl⟩
        | error fault => exact .error trivial ⟨rfl, rfl⟩
    | some path =>
      have halike := Session.locate_alike (hpath path rfl) hpq
      rw [takeReading_path_on, takeReading_path_on]
      generalize s₀.locate path p = x, s₀.locate path q = y at halike
      cases halike with
      | error fault => exact .error trivial ⟨rfl, rfl⟩
      | @ok a b hab =>
        obtain ⟨ha, hb, hmirror⟩ := hab
        have hread : ∀ place : Place, place.document = s₀.current →
            s₀.valueAt place = .ofOption (place.point.value? doc) := by
          intro place hplace
          rw [Session.valueAt, Session.read, hplace, hdoc]
        refine .ok ⟨?_, hmirror, fun _ => hread a ha, fun _ => hread b hb⟩ ⟨?_, ?_⟩
        · show s₀.valueAt a = s₀.valueAt b
          rw [hread a ha, hread b hb, hmirror.value_eq]
        · rw [ha]
        · rw [hb]
  value h := h.1
  point h := h.2.1
  carrying h value := h.2.1.carrying value
  element := by
    rintro r r' items i element ⟨hvalue, hpoint, hlive, hlive'⟩ hitems helement
    obtain ⟨o, ho, hv⟩ := Reading.elementPoint_eq_descend hitems helement hlive
    obtain ⟨o', ho', hv'⟩ := Reading.elementPoint_eq_descend (hvalue ▸ hitems) helement hlive'
    rw [ho, ho']
    exact hpoint.descend (toString i) (hv.trans hv'.symm)
  writing := False.elim
  operator _ := trivial

/-- Steps that agree on mirrored points in a session are one step there. -/
theorem Agreement.on_eq_of_mirrored {α : Type} {s₀ : Session} {x y : Run α}
    (h : (Agreement.mirrored s₀ doc).Steps Eq x y) : x.on s₀ = y.on s₀ := by
  have hends := h s₀ s₀ ⟨rfl, rfl⟩
  generalize x.on s₀ = p, y.on s₀ = q at hends
  cases hends with
  | ok hresult hsessions => rw [hresult, hsessions.1, hsessions.2]
  | error _ hsessions => rw [hsessions.1, hsessions.2]

/-! ## Acting where one reads -/

/-- The rules of an operand. -/
def Operand.inner : Operand → List Rule
  | .literal _ => []
  | .derived rules => rules

/-- The rules inside an action: those of its elements, of its keys, of its operand. -/
def Action.inner : Action → List Rule
  | .sort keys _ => keys
  | .inspect _ (some rules) => rules
  | .contains (some operand) => operand.inner
  | .set _ (some operand) => operand.inner
  | .binary _ operand => operand.inner
  | _ => []

/-- A rule that, at any depth, neither writes nor has a path that names a document. -/
def Rule.StaysIn (documents : Documents) (rule : Rule) : Prop :=
  rule.Within (fun path => documents.names path = false) (fun _ => False)

theorem Operand.within_of_inner {reads writes : String → Prop} {operand : Operand}
    (h : ∀ rule ∈ operand.inner, rule.Within reads writes) : operand.Within reads writes := by
  cases operand with
  | literal value => trivial
  | derived rules => exact Rule.allWithin_iff.mpr h

/-- An action on what stands at a point of the current document does the same whether the value was
read there or handed on. -/
theorem Action.run_handed_on {s : Session} (hdoc : s.documents.get? s.current = some doc)
    (action : Action) (h : ∀ rule ∈ action.inner, rule.StaysIn s.documents) {point : Point}
    {value : Value} (hvalue : value = .ofOption (point.value? doc)) :
    (action.run ⟨value, point, true⟩).on s = (action.run ⟨value, point, false⟩).on s := by
  have law := Agreement.mirrored_lawful hdoc
  have hr : (Agreement.mirrored s doc).readings ⟨value, point, true⟩ ⟨value, point, false⟩ :=
    ⟨rfl, .refl doc point, fun _ => hvalue, by simp⟩
  -- Only the three operators that go through the elements ask how the array was come by.
  cases action with
  | sort keys comparison =>
    have hkeys := Rule.allWithin_iff.mpr h
    simp only [Action.run]
    refine Agreement.on_eq_of_mirrored (law.items hr _ fun items hitems => ?_)
    have hfound := law.elements hr hitems fun _ _ hp => Rule.runSteps_agrees law keys hkeys hp
    have hsorted := fun found => law.result
      (insertionSort_byValue comparison.comesAfter_byValue (keyed 0 items found))
    exact hfound.bind_eq fun found => (hsorted found).bind_eq fun sorted => .pure rfl
  | inspect operator rules =>
    cases rules with
    | none => rfl
    | some rules =>
      have hrules := Rule.allWithin_iff.mpr h
      simp only [Action.run]
      refine Agreement.on_eq_of_mirrored (law.items hr _ fun items hitems => ?_)
      have hfound := law.elements hr hitems fun _ _ hp => Rule.runSteps_agrees law rules hrules hp
      exact hfound.bind_eq fun results => .pure rfl
  | contains wanted =>
    cases wanted with
    | none => rfl
    | some wanted =>
      have hwanted := Operand.within_of_inner h
      simp only [Action.run]
      refine Agreement.on_eq_of_mirrored (law.items hr _ fun items hitems => ?_)
      have hfound := law.found hr hitems fun _ _ hp => Operand.run_agrees law wanted hwanted hp
      exact hfound.bind_eq fun found => .pure rfl
  | set path operand => cases operand <;> rfl
  | _ => rfl

/-- **A rule that reads at a path and acts there does what a rule that reads and another one that
acts on what it was handed do**, if the rules inside the action stay in their document: both fail
alike or succeed with the same value at the same point, and leave the same session. -/
theorem Rule.run_action_eq_read_then_act (path : String) (action : Action) (point : Option Point)
    (cascade : Value) (s : Session) (h : ∀ rule ∈ action.inner, rule.StaysIn s.documents) :
    (Rule.run (.action (some path) action) point cascade).on s =
      (Rule.run (.path path) point cascade >>= fun outcome =>
        Rule.run (.action none action) outcome.point outcome.value).on s := by
  simp only [Rule.run, bind_assoc, pure_bind]
  rw [Run.on_bind, Run.on_bind, takeReading_path_on]
  cases hplace : s.locate path point with
  | error fault => rfl
  | ok place =>
    obtain ⟨doc, hdoc⟩ := Session.get?_of_locate hplace
    obtain ⟨trail, htrail⟩ := Session.trailOf_of_locate hplace
    simp only [Run.on_bind, takeReading_none_on, htrail]
    refine Action.run_handed_on (s := { s with current := place.document }) hdoc action h ?_
    rw [Session.valueAt, Session.read, hdoc]

/-- A session over two documents, one of which has rows of numbers. -/
def Session.rows : Session where
  documents := ⟨"A", [("A", .obj [("rows", .arr [.arr [.ofInt 1, .ofInt 2], .arr [.ofInt 3]])]),
    ("B", .null)]⟩
  current := "A"

/-- Asks each row whether it has the number that comes first in all. The path goes up from an
element of an element, and down again by another way. -/
def Action.haveFirst : Action :=
  .inspect .map (some [.action none (.contains (some (.derived [.path "../../0/0"])))])

theorem Rule.run_haveFirst_eq_read_then_act :
    (∀ rule ∈ Action.haveFirst.inner, rule.StaysIn Session.rows.documents) ∧
      (Rule.run (.action (some "/rows") .haveFirst) none .undefined).on Session.rows =
        (Rule.run (.path "/rows") none .undefined >>= fun outcome =>
          Rule.run (.action none .haveFirst) outcome.point outcome.value).on Session.rows := by
  have h : ∀ rule ∈ Action.haveFirst.inner, rule.StaysIn Session.rows.documents := by
    intro rule hrule
    rw [List.mem_singleton.mp hrule]
    refine ⟨?_, ?_, trivial⟩
    · simp
    · rfl
  exact ⟨h, Rule.run_action_eq_read_then_act "/rows" _ none .undefined Session.rows h⟩

end DocumentRules
