import DocumentRules.Pointer.Point

/-!
# Points that are spelled by their keys

The text of a point is a field of its own, and a chain of points may repeat a text; `Point.trail`
refuses such a chain. The points that evaluation makes never do: each step adds a slash and a key to
the text, so the texts get longer on the way down and no two of them are the same. `Point.Spelled`
says that the text was built in this way, every step of `Point` keeps it, and resolving a path keeps
it. What follows is that such a point always has a trail (`Point.Spelled.trail`).
-/

set_option autoImplicit false

namespace DocumentRules

namespace Point

/-- Every text on the way to the point is the one before it with a slash and the key. -/
def Spelled : Point → Prop
  | .root _ => True
  | .step parent key path _ => parent.Spelled ∧ path = parent.path ++ "/" ++ Pointer.escape key

variable {p : Point}

theorem Spelled.descend (h : p.Spelled) (key : String) (origin : Origin) :
    (p.descend key origin).Spelled :=
  ⟨h, rfl⟩

theorem Spelled.child (h : p.Spelled) (key : String) : (p.child key).Spelled := by
  unfold Point.child
  cases p.origin with
  | live => exact h.descend key .live
  | carried value => exact h.descend key _

theorem Spelled.carrying (h : p.Spelled) (value : Option Json) : (p.carrying value).Spelled := by
  cases p with
  | root origin => trivial
  | step parent key path origin => exact h

/-- What a point hands up to the point above it holds of all points above. -/
theorem of_mem_lineage {P : Point → Prop} {q : Point}
    (hparent : ∀ {parent key path origin}, P (.step parent key path origin) → P parent)
    (h : P p) (hq : q ∈ p.lineage) : P q := by
  induction p with
  | root origin =>
    rw [List.mem_singleton.mp hq]
    exact h
  | step parent key path origin ih =>
    rcases List.mem_cons.mp hq with rfl | hq
    · exact h
    · exact ih (hparent h) hq

theorem spelled_of_mem_lineage {q : Point} (h : p.Spelled) (hq : q ∈ p.lineage) : q.Spelled :=
  of_mem_lineage (P := Spelled) (fun hstep => hstep.1) h hq

/-! ## No text twice -/

theorem Spelled.length_parent_lt {parent : Point} {key path : String} {origin : Origin}
    (h : (Point.step parent key path origin).Spelled) : parent.path.length < path.length := by
  have hlength : path.length = parent.path.length + 1 + (Pointer.escape key).length := by
    rw [h.2, String.length_append, String.length_append]
    rfl
  omega

theorem Spelled.length_le {q : Point} (h : p.Spelled) (hq : q ∈ p.lineage) :
    q.path.length ≤ p.path.length := by
  induction p with
  | root origin =>
    have hroot : q = .root origin := List.mem_singleton.mp hq
    exact Nat.le_of_eq (congrArg (fun r => r.path.length) hroot)
  | step parent key path origin ih =>
    rcases List.mem_cons.mp hq with rfl | hq
    · exact Nat.le_refl _
    · exact Nat.le_trans (ih h.1 hq) (Nat.le_of_lt h.length_parent_lt)

theorem Spelled.nodup_paths (h : p.Spelled) : (p.lineage.map path).Nodup := by
  induction p with
  | root origin => simp [lineage]
  | step parent key path origin ih =>
    rw [lineage, List.map_cons, List.nodup_cons]
    refine ⟨fun hmem => ?_, ih h.1⟩
    obtain ⟨q, hq, hpath⟩ := List.mem_map.mp hmem
    have hle : q.path.length ≤ parent.path.length := Spelled.length_le h.1 hq
    have hlt : parent.path.length < path.length := h.length_parent_lt
    rw [hpath] at hle
    exact absurd hlt (Nat.not_lt.mpr hle)

theorem firstRepeat_eq_none {paths : List String} :
    ∀ {seen : List String}, paths.Nodup → (∀ path ∈ paths, path ∉ seen) →
      firstRepeat seen paths = none := by
  induction paths with
  | nil => intros; rfl
  | cons path rest ih =>
    intro seen hnodup hseen
    rw [List.nodup_cons] at hnodup
    rw [firstRepeat, if_neg (hseen path (List.mem_cons_self))]
    refine ih hnodup.2 fun other hother hmem => ?_
    rcases List.mem_cons.mp hmem with rfl | hmem
    · exact hnodup.1 hother
    · exact hseen other (List.mem_cons_of_mem _ hother) hmem

/-- A spelled point has a trail: the points on the way to it. -/
theorem Spelled.trail (h : p.Spelled) : p.trail = .ok p.lineage.reverse := by
  rw [Point.trail, firstRepeat_eq_none h.nodup_paths fun _ _ => List.not_mem_nil]

theorem getLast?_lineage_reverse (p : Point) : p.lineage.reverse.getLast? = some p := by
  cases p <;> simp [lineage]

/-- A trail ends with the point that it leads to. -/
theorem getLast?_of_trail {trail : List Point} (h : p.trail = .ok trail) :
    trail.getLast? = some p := by
  rw [Point.trail] at h
  split at h
  · exact absurd h (by simp)
  · simp only [Except.ok.injEq] at h
    rw [← h]
    exact getLast?_lineage_reverse p

theorem Spelled.of_mem_trail {q : Point} {trail : List Point} (h : p.Spelled)
    (htrail : p.trail = .ok trail) (hq : q ∈ trail) : q.Spelled := by
  rw [h.trail, Except.ok.injEq] at htrail
  rw [← htrail, List.mem_reverse] at hq
  exact spelled_of_mem_lineage h hq

end Point

/-! ## Resolving -/

namespace Pointer

section Kept

variable {P : Point → Prop} {tokens : List String} {target : Point}

/-- What steps down keep holds of the target of a walk: going up only returns to points that the
walk has come by, or that were at hand before. -/
theorem of_walk (hchild : ∀ p key, P p → P (p.child key)) :
    ∀ {above : List Point} {p : Point}, (∀ q ∈ above, P q) → P p →
      walk tokens above p = .ok target → P target := by
  induction tokens with
  | nil =>
    intro above p _ hp h
    rw [walk, Except.ok.injEq] at h
    rwa [← h]
  | cons token rest ih =>
    intro above p habove hp h
    unfold walk at h
    split at h
    · cases above with
      | nil => exact absurd h (by simp)
      | cons point above =>
        exact ih (fun q hq => habove q (List.mem_cons_of_mem _ hq))
          (habove point List.mem_cons_self) h
    · refine ih (fun q hq => ?_) (hchild p token hp) h
      rcases List.mem_cons.mp hq with rfl | hq
      · exact hp
      · exact habove q hq

theorem of_resolve (hroot : P .documentRoot) (hchild : ∀ p key, P p → P (p.child key))
    {trail : List Point} (htrail : ∀ q ∈ trail, P q) (h : resolve tokens trail = .ok target) :
    P target := by
  have hreverse : ∀ q ∈ trail.reverse, P q := fun q hq => htrail q (List.mem_reverse.mp hq)
  unfold resolve at h
  generalize trail.reverse = points at h hreverse
  cases points with
  | nil => exact of_walk hchild (by simp) hroot h
  | cons last above =>
    exact of_walk hchild (fun q hq => hreverse q (List.mem_cons_of_mem _ hq))
      (hreverse last List.mem_cons_self) h

end Kept

theorem spelled_of_resolve {tokens : List String} {trail : List Point} {target : Point}
    (htrail : ∀ q ∈ trail, q.Spelled) (h : resolve tokens trail = .ok target) :
    target.Spelled :=
  of_resolve (P := Point.Spelled) trivial (fun _ key hp => hp.child key) htrail h

end Pointer

end DocumentRules
