import DocumentRules.Proofs.Pointer.Spelling

/-!
# The points that there are

A point is a chain of steps, and nothing in the type keeps a chain from repeating a text, or a live
point from standing under a detached one. No point that is ever made does either. Points are made by
starting at a root, stepping down, taking a value along, and resolving a path from what is there
already; `Point.Reachable` is what can be made like this, in any order and to any length.

Two facts about such points carry everything else. Their texts are spelled by their keys
(`Point.Spelled`), and a live point has only live points above it (`Point.Anchored`): a step down
from a detached point is detached too. `Point.Reachable.laws` says what follows for the text, the
keys and the trail of a point.
-/

set_option autoImplicit false

namespace DocumentRules

namespace Point

/-- The points that can be made. Resolving starts without a trail, or with the trail of a point. -/
inductive Reachable : Point → Prop where
  | root : Reachable documentRoot
  | child {p : Point} (key : String) : Reachable p → Reachable (p.child key)
  | childCarrying {p : Point} (key : String) (value : Option Json) :
      Reachable p → Reachable (p.childCarrying key value)
  | carrying {p : Point} (value : Option Json) : Reachable p → Reachable (p.carrying value)
  | resolved {path : List String} {target : Point} :
      Pointer.resolve path [] = .ok target → Reachable target
  | resolvedFrom {p target : Point} {trail : List Point} {path : List String} :
      Reachable p → p.trail = .ok trail → Pointer.resolve path trail = .ok target →
        Reachable target

/-- No live point stands under a detached one. -/
def Anchored : Point → Prop
  | .root _ => True
  | .step parent _ _ origin =>
    parent.Anchored ∧ (origin = .live → parent.origin = .live)

variable {p q : Point}

theorem isDetached_eq_false : p.isDetached = false ↔ p.origin = .live := by
  unfold isDetached
  cases p.origin with
  | live => simp
  | carried value => simp

theorem Anchored.child (h : p.Anchored) (key : String) : (p.child key).Anchored := by
  unfold Point.child
  cases horigin : p.origin with
  | live => exact ⟨h, fun _ => horigin⟩
  | carried value => exact ⟨h, fun hlive => absurd hlive (by simp)⟩

theorem Anchored.childCarrying (h : p.Anchored) (key : String) (value : Option Json) :
    (p.childCarrying key value).Anchored :=
  ⟨h, fun hlive => absurd hlive (by simp)⟩

theorem Anchored.carrying (h : p.Anchored) (value : Option Json) : (p.carrying value).Anchored := by
  cases p with
  | root origin => trivial
  | step parent key path origin => exact ⟨h.1, fun hlive => absurd hlive (by simp)⟩

theorem anchored_of_mem_lineage (h : p.Anchored) (hq : q ∈ p.lineage) : q.Anchored :=
  of_mem_lineage (P := Anchored) (fun hstep => hstep.1) h hq

/-- All points above a live one are live. -/
theorem Anchored.live_of_mem_lineage (h : p.Anchored) (hlive : p.origin = .live)
    (hq : q ∈ p.lineage) : q.origin = .live :=
  (of_mem_lineage (P := fun r => r.Anchored ∧ r.origin = .live)
    (fun hstep => ⟨hstep.1.1, hstep.1.2 hstep.2⟩) ⟨h, hlive⟩ hq).2

/-- Everything that can be made is spelled by its keys, and anchored. -/
theorem Reachable.spelled_and_anchored (h : p.Reachable) : p.Spelled ∧ p.Anchored := by
  induction h with
  | root => exact ⟨trivial, trivial⟩
  | child key _ ih => exact ⟨ih.1.child key, ih.2.child key⟩
  | childCarrying key value _ ih =>
    exact ⟨ih.1.descend key (.carried value), ih.2.childCarrying key value⟩
  | carrying value _ ih => exact ⟨ih.1.carrying value, ih.2.carrying value⟩
  | resolved hresolve =>
    exact Pointer.of_resolve (P := fun q => q.Spelled ∧ q.Anchored) ⟨trivial, trivial⟩
      (fun _ key hp => ⟨hp.1.child key, hp.2.child key⟩) (by simp) hresolve
  | resolvedFrom _ htrail hresolve ih =>
    rw [ih.1.trail, Except.ok.injEq] at htrail
    refine Pointer.of_resolve (P := fun q => q.Spelled ∧ q.Anchored) ⟨trivial, trivial⟩
      (fun _ key hp => ⟨hp.1.child key, hp.2.child key⟩) (fun q hq => ?_) hresolve
    rw [← htrail, List.mem_reverse] at hq
    exact ⟨spelled_of_mem_lineage ih.1 hq, anchored_of_mem_lineage ih.2 hq⟩

/-! ## Texts and keys -/

theorem Spelled.path_eq (h : p.Spelled) : p.path = Pointer.format p.keys := by
  induction p with
  | root origin => rfl
  | step parent key path origin ih =>
    show path = Pointer.format (parent.keys ++ [key])
    rw [h.2, ih h.1]
    simp [Pointer.format, String.append_assoc]

theorem isRoot_iff : p.isRoot = true ↔ p.keys = [] := by
  cases p with
  | root origin => simp [isRoot, keys]
  | step parent key path origin => simp [isRoot, keys]

theorem keys_parent {parent : Point} (h : p.parent? = some parent) :
    parent.keys = p.keys.dropLast := by
  cases p with
  | root origin => exact absurd h (by simp [parent?])
  | step above key path origin =>
    rw [parent?, Option.some.injEq] at h
    simp [keys, h]

theorem length_lineage (p : Point) : p.lineage.length = p.keys.length + 1 := by
  induction p with
  | root origin => rfl
  | step parent key path origin ih => simp [lineage, keys, ih]

/-- The points on the way down have one key more each. -/
theorem keys_of_lineage {i : Nat} (h : p.lineage.reverse[i]? = some q) :
    q.keys = p.keys.take i := by
  induction p with
  | root origin =>
    have hq : q ∈ (Point.root origin).lineage.reverse := List.mem_of_getElem? h
    rw [List.mem_singleton.mp hq]
    simp [keys]
  | step parent key path origin ih =>
    rw [lineage, List.reverse_cons, List.getElem?_append] at h
    have hlength : parent.lineage.reverse.length = parent.keys.length + 1 := by
      rw [List.length_reverse, length_lineage]
    split at h
    · next hi =>
      rw [ih h, keys, List.take_append_of_le_length (by omega)]
    · next hi =>
      -- The last point of the way is the point itself.
      have hq : q ∈ [Point.step parent key path origin] := List.mem_of_getElem? h
      rw [List.mem_singleton.mp hq, List.take_of_length_le (by simp [keys]; omega)]

/-- **A point that can be made** has the text of its keys; it is a root exactly if it has none, and
the point above it has one fewer. A live one has only live ones above it. Its trail is never
refused: it leads from the root, one key at a time, to the point itself. -/
theorem Reachable.laws (h : p.Reachable) :
    p.path = Pointer.format p.keys ∧
    (p.isRoot = true ↔ p.keys = []) ∧
    (∀ parent, p.parent? = some parent → parent.keys = p.keys.dropLast) ∧
    (p.isDetached = false → ∀ q ∈ p.lineage, q.isDetached = false) ∧
    ∃ trail, p.trail = .ok trail ∧ trail.length = p.keys.length + 1 ∧
      (∀ i q, trail[i]? = some q → q.keys = p.keys.take i) ∧ trail.getLast? = some p := by
  obtain ⟨hspelled, hanchored⟩ := h.spelled_and_anchored
  refine ⟨hspelled.path_eq, isRoot_iff, fun _ => keys_parent, ?_, ?_⟩
  · intro hlive q hq
    rw [isDetached_eq_false] at hlive ⊢
    exact hanchored.live_of_mem_lineage hlive hq
  · have hlength : p.lineage.reverse.length = p.keys.length + 1 := by
      rw [List.length_reverse, length_lineage]
    exact ⟨p.lineage.reverse, hspelled.trail, hlength, fun _ _ => keys_of_lineage,
      getLast?_lineage_reverse p⟩

/-- Up from a point that carries its value, and down beside it. -/
theorem besideCarried_laws :
    let carried : Point := (documentRoot.child "a").carrying none
    let beside : Point := documentRoot.child "b"
    Pointer.resolve ["..", "b"] [documentRoot, carried] = .ok beside ∧ beside.Reachable ∧
      beside.path = "/b" ∧ ∃ trail, beside.trail = .ok trail ∧ trail.length = 2 := by
  intro carried beside
  have hcarried : carried.Reachable := .carrying none (.child "a" .root)
  have hresolve : Pointer.resolve ["..", "b"] [documentRoot, carried] = .ok beside := rfl
  have hreachable : beside.Reachable := .resolvedFrom hcarried rfl hresolve
  obtain ⟨hpath, -, -, -, trail, htrail, hlength, -⟩ := hreachable.laws
  exact ⟨hresolve, hreachable, hpath, trail, htrail, hlength⟩

end Point

end DocumentRules
