import DocumentRules.Proofs.Pointer.Reachable

/-!
# Where a path leads from a point

A path is followed with the points above at hand, as a stack beside the point that it has got to.
The point knows those points itself: they are its lineage, and the two never get out of step, since
a step down puts the point left behind on both and a step up takes it off both (`Pointer.walk_up`,
`Pointer.walk_down`). So the stack can be left out of what is said of a walk, and whatever each step
keeps for a point is kept along a whole path (`Pointer.of_walk_along`).

Two things are said like this. The keys of the target are those of the start with the tokens of the
path applied to them as to a stack. The walk fails if that stack runs out, which is a matter of
counting: some front part of the path goes up further than the start is deep and the path has come
down by then (`Pointer.Climbs`).
-/

set_option autoImplicit false

namespace DocumentRules

namespace Point

theorem lineage_eq (p : Point) : p.lineage = p :: p.lineage.tail := by
  cases p <;> rfl

theorem lineage_child (p : Point) (key : String) : (p.child key).lineage.tail = p.lineage := by
  unfold Point.child
  split
  · rfl
  · rfl

theorem keys_child (p : Point) (key : String) : (p.child key).keys = p.keys ++ [key] := by
  unfold Point.child
  split
  · rfl
  · rfl

end Point

namespace Pointer

/-! ## One token -/

theorem walk_above_root (origin : Origin) (rest : List String) :
    walk (parentToken :: rest) (Point.root origin).lineage.tail (.root origin) =
      .error .aboveRoot := rfl

theorem walk_up (parent : Point) (key path : String) (origin : Origin) (rest : List String) :
    walk (parentToken :: rest) (Point.step parent key path origin).lineage.tail
        (.step parent key path origin) =
      walk rest parent.lineage.tail parent := by
  cases parent <;> rfl

theorem walk_down {token : String} (h : token ≠ parentToken) (rest : List String) (p : Point) :
    walk (token :: rest) p.lineage.tail p =
      walk rest (p.child token).lineage.tail (p.child token) := by
  have hstep : walk (token :: rest) p.lineage.tail p =
      walk rest (p :: p.lineage.tail) (p.child token) := by
    simp only [walk, if_neg h]
  rw [hstep, ← p.lineage_eq, p.lineage_child]

/-! ## Along a path -/

/-- What becomes of something along a path, if going up does the one thing to it and every step down
the other. -/
def along {σ : Type} (up : σ → σ) (down : String → σ → σ) (path : List String) (start : σ) : σ :=
  path.foldl (fun s token => if token = parentToken then up s else down token s) start

section Along

variable {σ : Type} {up : σ → σ} {down : String → σ → σ}

theorem along_up (rest : List String) (s : σ) :
    along up down (parentToken :: rest) s = along up down rest (up s) := rfl

theorem along_down {token : String} (h : token ≠ parentToken) (rest : List String) (s : σ) :
    along up down (token :: rest) s = along up down rest (down token s) := by
  rw [along, List.foldl_cons, if_neg h, along]

/-- What a step up and a step down keep between a point and something beside it, a path keeps. -/
theorem of_walk_along {P : Point → σ → Prop}
    (hup : ∀ parent key path origin s, P (.step parent key path origin) s → P parent (up s))
    (hdown : ∀ p token s, P p s → P (p.child token) (down token s)) {path : List String} :
    ∀ {p target : Point} {s : σ}, walk path p.lineage.tail p = .ok target → P p s →
      P target (along up down path s) := by
  induction path with
  | nil =>
    intro p target s h hp
    rw [walk, Except.ok.injEq] at h
    rwa [← h]
  | cons token rest ih =>
    intro p target s h hp
    by_cases htoken : token = parentToken
    · rw [htoken] at h ⊢
      cases p with
      | root origin =>
        rw [walk_above_root] at h
        cases h
      | step parent key path origin =>
        rw [walk_up] at h
        rw [along_up]
        exact ih h (hup parent key path origin s hp)
    · rw [walk_down htoken] at h
      rw [along_down htoken]
      exact ih h (hdown p token s hp)

end Along

/-- Two paths one after the other are followed one after the other. -/
theorem walk_append (ys : List String) {xs : List String} : ∀ p : Point,
    walk (xs ++ ys) p.lineage.tail p =
      walk xs p.lineage.tail p >>= fun q => walk ys q.lineage.tail q := by
  induction xs with
  | nil =>
    intro p
    rfl
  | cons token rest ih =>
    intro p
    rw [List.cons_append]
    by_cases htoken : token = parentToken
    · rw [htoken]
      cases p with
      | root origin => rfl
      | step parent key path origin =>
        rw [walk_up, walk_up]
        exact ih parent
    · rw [walk_down htoken, walk_down htoken]
      exact ih (p.child token)

/-- A path is resolved from a point with the points above it at hand. -/
theorem resolve_lineage (path : List String) (p : Point) :
    resolve path p.lineage.reverse = walk path p.lineage.tail p := by
  rw [resolve, List.reverse_reverse, p.lineage_eq]
  rfl

/-! ## Keys and depths -/

/-- Keys with the tokens of a path applied as to a stack, whose top is the last key: `..` takes one
off, any other token is put on. -/
def keysAlong (path keys : List String) : List String :=
  along List.dropLast (fun token keys => keys ++ [token]) path keys

/-- How deep a path leads from some depth: `..` up by one, any other token down by one. A negative
depth is above the root. -/
def depthAlong (path : List String) (depth : Int) : Int :=
  along (fun depth => depth - 1) (fun _ depth => depth + 1) path depth

/-- A path gets above the root on its way, also if it comes down again. -/
def Climbs (depth : Int) (path : List String) : Prop :=
  ∃ front, front <+: path ∧ depthAlong front depth < 0

theorem climbs_of_neg {depth : Int} (h : depth < 0) (path : List String) : Climbs depth path :=
  ⟨[], List.nil_prefix, h⟩

theorem climbs_nil {depth : Int} (h : 0 ≤ depth) : ¬ Climbs depth [] := by
  intro hclimbs
  obtain ⟨front, hfront, hneg⟩ := hclimbs
  rw [List.prefix_nil.mp hfront] at hneg
  exact absurd hneg (Int.not_lt.mpr h)

/-- From inside the document a path gets above the root behind its first token, or not at all. -/
theorem climbs_cons {depth : Int} (h : 0 ≤ depth) (token : String) (rest : List String) :
    Climbs depth (token :: rest) ↔ Climbs (depthAlong [token] depth) rest := by
  constructor
  · intro hclimbs
    obtain ⟨front, hfront, hneg⟩ := hclimbs
    rcases List.prefix_cons_iff.mp hfront with hnil | ⟨front', hcons, hrest⟩
    · rw [hnil] at hneg
      exact absurd hneg (Int.not_lt.mpr h)
    · rw [hcons] at hneg
      exact ⟨front', hrest, hneg⟩
  · intro hclimbs
    obtain ⟨front, hfront, hneg⟩ := hclimbs
    exact ⟨token :: front, List.cons_prefix_cons.mpr ⟨rfl, hfront⟩, hneg⟩

theorem walk_eq_error {error : PointerError} {path : List String} : ∀ p : Point,
    walk path p.lineage.tail p = .error error ↔
      Climbs p.keys.length path ∧ error = .aboveRoot := by
  induction path with
  | nil =>
    intro p
    have hnot : ¬ Climbs p.keys.length [] := climbs_nil (Int.natCast_nonneg _)
    simp [walk, hnot]
  | cons token rest ih =>
    intro p
    rw [climbs_cons (Int.natCast_nonneg _)]
    by_cases htoken : token = parentToken
    · rw [htoken]
      cases p with
      | root origin =>
        have hclimbs : Climbs (depthAlong [parentToken] (Point.root origin).keys.length) rest :=
          climbs_of_neg (show depthAlong [parentToken] 0 < 0 by decide) rest
        simp [walk_above_root, hclimbs, eq_comm]
      | step parent key path origin =>
        have hdepth : depthAlong [parentToken] (Point.step parent key path origin).keys.length =
            parent.keys.length := by
          simp [depthAlong, along, Point.keys]
        rw [walk_up, hdepth]
        exact ih parent
    · have hdepth : depthAlong [token] p.keys.length = (p.child token).keys.length := by
        simp [depthAlong, along, htoken, Point.keys_child]
      rw [walk_down htoken, hdepth]
      exact ih (p.child token)

theorem keys_of_walk {path : List String} {p target : Point}
    (h : walk path p.lineage.tail p = .ok target) : target.keys = keysAlong path p.keys := by
  refine of_walk_along (P := fun q keys => q.keys = keys) ?_ ?_ h rfl
  · intro parent key path origin keys hkeys
    rw [← hkeys, Point.keys, List.dropLast_concat]
  · intro q token keys hkeys
    rw [Point.keys_child, hkeys]

/-! ## Resolving -/

/-- What resolving a path from a point with these keys comes to. -/
structure Resolved (path keys : List String) (result : Except PointerError Point) : Prop where
  fails_iff : ∀ error, result = .error error ↔ Climbs keys.length path ∧ error = .aboveRoot
  leads : ¬ Climbs keys.length path →
    ∃ target, result = .ok target ∧ target.keys = keysAlong path keys

theorem resolved_walk (path : List String) (p : Point) :
    Resolved path p.keys (walk path p.lineage.tail p) where
  fails_iff := fun _ => walk_eq_error p
  leads := by
    intro hclimbs
    cases h : walk path p.lineage.tail p with
    | error error => exact absurd ((walk_eq_error p).mp h).1 hclimbs
    | ok target => exact ⟨target, rfl, keys_of_walk h⟩

/-- **A path resolved from a point that can be made**, or from the root of the document. The point
has a trail. Resolving fails exactly if the path gets above the root on its way, and says so;
otherwise it leads to where the tokens lead that are applied to the keys as to a stack. -/
theorem resolve_follows_keys (path : List String) :
    Resolved path [] (resolve path []) ∧
    ∀ p : Point, p.Reachable → ∃ trail, p.trail = .ok trail ∧
      Resolved path p.keys (resolve path trail) := by
  refine ⟨resolved_walk path .documentRoot, fun p hp => ?_⟩
  refine ⟨p.lineage.reverse, hp.spelled_and_anchored.1.trail, ?_⟩
  rw [resolve_lineage]
  exact resolved_walk path p

/-- One step too far up is refused, also if the path comes down again. Down and up again is not. -/
theorem belowCarried_resolved :
    let p : Point := (Point.documentRoot.child "a").carrying none
    p.Reachable ∧
      (∃ trail, p.trail = .ok trail ∧ resolve ["..", "..", "b"] trail = .error .aboveRoot) ∧
      ∃ trail, p.trail = .ok trail ∧ ∃ target,
        resolve ["..", "b", "c", ".."] trail = .ok target ∧ target.keys = ["b"] := by
  intro p
  have hp : p.Reachable := .carrying none (.child "a" .root)
  have hclimbs : Climbs 1 ["..", "..", "b"] := ⟨["..", ".."], by simp, by decide⟩
  have hstays : ¬ Climbs 1 ["..", "b", "c", ".."] := by
    rw [climbs_cons (by decide), climbs_cons (by decide), climbs_cons (by decide),
      climbs_cons (by decide)]
    exact climbs_nil (by decide)
  obtain ⟨trail, htrail, hup⟩ := (resolve_follows_keys ["..", "..", "b"]).2 p hp
  obtain ⟨trail', htrail', hdown⟩ := (resolve_follows_keys ["..", "b", "c", ".."]).2 p hp
  have herror := (hup.fails_iff .aboveRoot).mpr ⟨hclimbs, rfl⟩
  exact ⟨hp, ⟨trail, htrail, herror⟩, trail', htrail', hdown.leads hstays⟩

end Pointer

end DocumentRules
