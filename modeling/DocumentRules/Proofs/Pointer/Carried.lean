import DocumentRules.Proofs.Pointer.Lens
import DocumentRules.Proofs.Pointer.Resolving

/-!
# What a point reads

A live point reads the document at its keys. A detached one reads what it carries, and that came to
it in one of two ways: it was given to the point when the point was made, or it was taken, with the
step that made the point, out of what the point above carries. A point does not say which of the two
it was. So a way to a point is looked at together with how each point on it was made
(`Point.MadeBy`), and the makings are followed like the keys: a path takes them up and down with the
point.

The law is then that a detached point reads, in what the nearest point with a value of its
own was given, at the keys that lead down from there (`Point.Reachable.value_from_giver`).
Along the way down the value is taken apart one step at a time, and the steps add up to one
reading (`Origin.below_below`).
-/

set_option autoImplicit false

namespace DocumentRules

/-! ## Where a point reads after some steps down -/

/-- Steps down from a live point stay live, and those from a value in hand go into the value. -/
def Origin.below (tokens : List String) : Origin → Origin
  | .live => .live
  | .carried value => .carried (value.bind (Json.get? tokens))

theorem Origin.below_nil (o : Origin) : o.below [] = o := by
  cases o with
  | live => rfl
  | carried value => cases value <;> rfl

theorem Origin.below_below (tokens rest : List String) (o : Origin) :
    (o.below tokens).below rest = o.below (tokens ++ rest) := by
  cases o with
  | live => rfl
  | carried value =>
    show Origin.carried ((value.bind (Json.get? tokens)).bind (Json.get? rest)) = _
    rw [Option.bind_assoc, Origin.below]
    congr 1
    exact Option.bind_congr fun v _ => (Json.get?_append tokens rest v).symm

namespace Point

theorem child_eq (p : Point) (key : String) :
    p.child key = p.descend key (p.origin.below [key]) := by
  unfold Point.child
  cases p.origin with
  | live => rfl
  | carried value =>
    have hstep : value.bind (Json.step? key) = value.bind (Json.get? [key]) := by
      apply Option.bind_congr
      intro v _
      exact (Json.get?_singleton key v).symm
    dsimp only [Origin.below]
    rw [hstep]

theorem origin_child (p : Point) (key : String) : (p.child key).origin = p.origin.below [key] := by
  rw [child_eq]
  rfl

/-! ## How a point was made -/

/-- A point is made by a step from the one above it, or with a value given to it. The root of a
document counts as stepped to. -/
inductive Making where
  | stepped
  | given
deriving DecidableEq

/-- The makings of the points on a way, the nearest first, as a path takes them along: `..` leaves
the last point, and any other token steps down to a new one. -/
def makingsAlong (path : List String) (makings : List Making) : List Making :=
  Pointer.along List.tail (fun _ makings => .stepped :: makings) path makings

/-- The points that can be made, with how they and those above them were made. -/
inductive MadeBy : Point → List Making → Prop where
  | root : MadeBy documentRoot [.stepped]
  | child {p : Point} {makings : List Making} (key : String) :
      MadeBy p makings → MadeBy (p.child key) (.stepped :: makings)
  | childCarrying {p : Point} {makings : List Making} (key : String) (value : Option Json) :
      MadeBy p makings → MadeBy (p.childCarrying key value) (.given :: makings)
  | carrying {p : Point} {makings : List Making} (value : Option Json) :
      MadeBy p makings → MadeBy (p.carrying value) (.given :: makings.tail)
  | resolved {path : List String} {target : Point} :
      Pointer.resolve path [] = .ok target → MadeBy target (makingsAlong path [.stepped])
  | resolvedFrom {p target : Point} {makings : List Making} {trail : List Point}
      {path : List String} : MadeBy p makings → p.trail = .ok trail →
        Pointer.resolve path trail = .ok target → MadeBy target (makingsAlong path makings)

/-- The nearest point, from `p` upwards, that was given its value. -/
def giver : Point → List Making → Option Point
  | p, .given :: _ => some p
  | .step parent _ _ _, .stepped :: above => parent.giver above
  | _, _ => none

variable {p : Point} {makings : List Making}

theorem MadeBy.reachable (h : p.MadeBy makings) : p.Reachable := by
  induction h with
  | root => exact .root
  | child key _ ih => exact .child key ih
  | childCarrying key value _ ih => exact .childCarrying key value ih
  | carrying value _ ih => exact .carrying value ih
  | resolved hresolve => exact .resolved hresolve
  | resolvedFrom _ htrail hresolve ih => exact .resolvedFrom ih htrail hresolve

theorem Reachable.exists_madeBy (h : p.Reachable) : ∃ makings, p.MadeBy makings := by
  induction h with
  | root => exact ⟨_, .root⟩
  | child key _ ih =>
    obtain ⟨makings, hp⟩ := ih
    exact ⟨_, .child key hp⟩
  | childCarrying key value _ ih =>
    obtain ⟨makings, hp⟩ := ih
    exact ⟨_, .childCarrying key value hp⟩
  | carrying value _ ih =>
    obtain ⟨makings, hp⟩ := ih
    exact ⟨_, .carrying value hp⟩
  | resolved hresolve => exact ⟨_, .resolved hresolve⟩
  | resolvedFrom _ htrail hresolve ih =>
    obtain ⟨makings, hp⟩ := ih
    exact ⟨_, .resolvedFrom hp htrail hresolve⟩

/-! ## What the makings say of a point -/

/-- Every point on the way is as its making says: one that was given a value carries one, and one
that was stepped to reads what a step down from the point above it reads. -/
def MadeAs : Point → List Making → Prop
  | .root origin, [.stepped] => origin = .live
  | .root origin, [.given] => ∃ value, origin = .carried value
  | .step parent key _ origin, .stepped :: above =>
    parent.MadeAs above ∧ origin = parent.origin.below [key]
  | .step parent _ _ origin, .given :: above =>
    parent.MadeAs above ∧ ∃ value, origin = .carried value
  | _, _ => False

theorem MadeAs.child (h : p.MadeAs makings) (key : String) :
    (p.child key).MadeAs (.stepped :: makings) := by
  rw [child_eq]
  exact ⟨h, rfl⟩

theorem MadeAs.carrying (h : p.MadeAs makings) (value : Option Json) :
    (p.carrying value).MadeAs (.given :: makings.tail) := by
  cases p with
  | root origin =>
    match makings, h with
    | [.stepped], _ => exact ⟨value, rfl⟩
    | [.given], _ => exact ⟨value, rfl⟩
  | step parent key path origin =>
    match makings, h with
    | .stepped :: above, h => exact ⟨h.1, value, rfl⟩
    | .given :: above, h => exact ⟨h.1, value, rfl⟩

theorem MadeAs.up {parent : Point} {key path : String} {origin : Origin}
    (h : (Point.step parent key path origin).MadeAs makings) : parent.MadeAs makings.tail := by
  match makings, h with
  | .stepped :: above, h => exact h.1
  | .given :: above, h => exact h.1

theorem MadeAs.along {path : List String} {target : Point}
    (hresolve : Pointer.walk path p.lineage.tail p = .ok target) (h : p.MadeAs makings) :
    target.MadeAs (makingsAlong path makings) :=
  Pointer.of_walk_along (P := MadeAs) (fun _ _ _ _ _ hp => hp.up) (fun _ key _ hp => hp.child key)
    hresolve h

theorem MadeBy.madeAs (h : p.MadeBy makings) : p.MadeAs makings := by
  induction h with
  | root => rfl
  | child key _ ih => exact ih.child key
  | childCarrying key value _ ih => exact ⟨ih, value, rfl⟩
  | carrying value _ ih => exact ih.carrying value
  | resolved hresolve => exact MadeAs.along (p := documentRoot) hresolve rfl
  | resolvedFrom hp htrail hresolve ih =>
    rw [hp.reachable.spelled_and_anchored.1.trail, Except.ok.injEq] at htrail
    rw [← htrail, Pointer.resolve_lineage] at hresolve
    exact MadeAs.along hresolve ih

/-- What a point reads, by the nearest point that was given a value: it is live if there is none,
and otherwise carries what stands in that value at the keys that lead down from there. -/
theorem MadeAs.origin_cases : ∀ {makings : List Making}, p.MadeAs makings →
    (p.giver makings = none ∧ p.origin = .live) ∨
      ∃ a c below, p.giver makings = some a ∧ a.origin = .carried c ∧ p.keys = a.keys ++ below ∧
        p.origin = (Origin.carried c).below below := by
  induction p with
  | root origin =>
    intro makings h
    match makings, h with
    | [.stepped], h => exact .inl ⟨rfl, h⟩
    | [.given], h =>
      obtain ⟨c, hc⟩ := h
      exact .inr ⟨_, c, [], rfl, hc, rfl, by rw [Origin.below_nil]; exact hc⟩
  | step parent key path origin ih =>
    intro makings h
    match makings, h with
    | .given :: above, h =>
      obtain ⟨-, c, hc⟩ := h
      refine .inr ⟨_, c, [], rfl, hc, (List.append_nil _).symm, ?_⟩
      rw [Origin.below_nil]
      exact hc
    | .stepped :: above, h =>
      obtain ⟨hparent, horigin⟩ := h
      rcases ih hparent with ⟨hnone, hlive⟩ | ⟨a, c, below, hgiver, hc, hkeys, hcarried⟩
      · refine .inl ⟨hnone, ?_⟩
        rw [hlive] at horigin
        exact horigin
      · refine .inr ⟨a, c, below ++ [key], hgiver, hc, ?_, ?_⟩
        · rw [keys, hkeys, List.append_assoc]
        · rw [hcarried, Origin.below_below] at horigin
          exact horigin

/-- **What a point that can be made reads.** A live one reads the document at its keys. A detached
one, however it was made, reads in the value that the nearest point from it upwards was given, at
the keys that lead down from that point, and so reads the same in every document. -/
theorem Reachable.value_from_giver (h : p.Reachable) :
    (p.isDetached = false → ∀ doc, p.value? doc = doc.get? p.keys) ∧
    (p.isDetached = true → ∀ makings, p.MadeBy makings → ∃ a c below,
      p.giver makings = some a ∧ a.origin = .carried c ∧ p.keys = a.keys ++ below ∧
        ∀ doc, p.value? doc = c.bind (Json.get? below)) ∧
    ∃ makings, p.MadeBy makings := by
  refine ⟨?_, ?_, h.exists_madeBy⟩
  · intro hlive doc
    rw [value?, isDetached_eq_false.mp hlive]
  · intro hdetached makings hmade
    rcases hmade.madeAs.origin_cases with ⟨-, hlive⟩ | ⟨a, c, below, hgiver, hc, hkeys, horigin⟩
    · rw [isDetached_eq_false.mpr hlive] at hdetached
      cases hdetached
    · refine ⟨a, c, below, hgiver, hc, hkeys, ?_⟩
      intro doc
      rw [value?, horigin]
      rfl

/-- Back to a point that was given a value, from one below it that was given another, and down on
another way. -/
theorem besideGiven_value :
    let given : Point :=
      (documentRoot.child "a").carrying (some (.arr [.null, .obj [("b", .bool true)]]))
    let beside : Point := given.childCarrying "0" (some (.str "c"))
    let p : Point := (given.child "1").child "b"
    Pointer.resolve ["..", "1", "b"] [documentRoot, given, beside] = .ok p ∧ p.Reachable ∧
      p.isDetached = true ∧ p.giver (makingsAlong ["..", "1", "b"] [.given, .given, .stepped]) =
        some given ∧ ∀ doc, p.value? doc = some (.bool true) := by
  intro given beside p
  have hbeside : beside.MadeBy [.given, .given, .stepped] :=
    .childCarrying "0" _ (.carrying _ (.child "a" .root))
  have hresolve : Pointer.resolve ["..", "1", "b"] [documentRoot, given, beside] = .ok p := rfl
  have hp : p.MadeBy (makingsAlong ["..", "1", "b"] [.given, .given, .stepped]) :=
    .resolvedFrom hbeside rfl hresolve
  obtain ⟨-, hdetached, -⟩ := hp.reachable.value_from_giver
  obtain ⟨a, c, below, hgiver, hc, hkeys, hvalue⟩ := hdetached rfl _ hp
  have ha : a = given := (Option.some.inj hgiver).symm
  rw [ha] at hc hkeys
  have hkeys' : ["a"] ++ ["1", "b"] = ["a"] ++ below := hkeys
  have hbelow : ["1", "b"] = below := List.append_cancel_left hkeys'
  have hc' : _ = c := Origin.carried.inj hc
  refine ⟨hresolve, hp.reachable, rfl, rfl, fun doc => ?_⟩
  rw [hvalue doc, ← hbelow, ← hc']
  rfl

end Point

end DocumentRules
