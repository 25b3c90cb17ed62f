import DocumentRules.Proofs.Evaluation.History
import DocumentRules.Proofs.Evaluation.Opening
import DocumentRules.Proofs.Pointer.Resolving
import DocumentRules.Proofs.Pointer.Segments

/-!
# A path in two steps

A cascade hands on the point that a rule has got to, and the path of the next rule goes on from
there. So a path that is cut at one of its slashes can be followed by two rules as well as by one.
That asks three things of a point. It must know the points above it, since the second part may go up
through all of the first (`Pointer.resolve_append`). Its document must be the current one by then,
since the second part begins with a slash and so stays in it (`Session.follow_join_append`). And it
must have a trail, which no rule has looked at if the path is followed in one go; the points of a
run always have one. The result is `Evaluator.path_in_two_steps`.
-/

set_option autoImplicit false

namespace DocumentRules

/-! ## Tokens -/

namespace Pointer

theorem resolve_append {point : Option Point} {trail : List Point}
    (hpoint : ∀ p, point = some p → p.Spelled) (htrail : trailOf point = .ok trail)
    {xs ys : List String} {target : Point} : resolve (xs ++ ys) trail = .ok target ↔
      ∃ middle, resolve xs trail = .ok middle ∧
        resolve ys middle.lineage.reverse = .ok target := by
  have hsteps : resolve (xs ++ ys) trail =
      resolve xs trail >>= fun middle => resolve ys middle.lineage.reverse := by
    simp only [resolve_lineage]
    cases point with
    | none =>
      rw [trailOf, Except.ok.injEq] at htrail
      rw [← htrail]
      exact walk_append ys .documentRoot
    | some p =>
      rw [trailOf_some_eq_ok, (hpoint p rfl).trail, Except.ok.injEq] at htrail
      rw [← htrail, resolve_lineage, resolve_lineage]
      exact walk_append ys p
  rw [hsteps, bind_eq_ok]

/-- What a joined pointer opens with: its first token, unless a slash stands before it. -/
theorem opening?_join {rooted : Bool} {segments : List String} (h : segments ≠ [])
    (hsegments : ∀ segment ∈ segments, IsSegment segment) {path : List String}
    (hparse : parse (join rooted segments) = .ok path) :
    opening? (join rooted segments) = if rooted then none else path.head? := by
  cases rooted with
  | true => exact opening?_of_slash toList_join_true
  | false =>
    have hslash : ∀ rest, (join false segments).toList ≠ '/' :: rest := by
      intro rest hrest
      obtain ⟨c, rest', htext, hc⟩ := intercalate_eq_cons h hsegments
      rw [toList_join_false, htext] at hrest
      exact hc (List.cons.inj hrest).1
    rw [opening?_of_no_slash hslash, hparse]
    rfl

end Pointer

/-! ## Places -/

open Pointer

section Cut

variable {rooted : Bool} {front back path : List String}

namespace Session

variable {s : Session}

/-- The whole names the document that its first part names, and goes on behind it with both. -/
theorem namedDocument_join_append (hfront : front ≠ []) (hback : back ≠ [])
    (hsegments : ∀ segment ∈ front ++ back, IsSegment segment)
    (hparse : parse (join rooted (front ++ back)) = .ok path) :
    s.namedDocument (join rooted (front ++ back)) path =
      (s.namedDocument (join rooted front) (front.map unescape)).map fun named =>
        (named.1, named.2 ++ back.map unescape) := by
  obtain ⟨hparseFront, -, hpath⟩ := parse_join_append hfront hback hsegments hparse
  have hfronts := (List.forall_mem_append.mp hsegments).1
  have hwhole : front ++ back ≠ [] := List.append_ne_nil_of_left_ne_nil hfront back
  rw [namedDocument_eq hparse, namedDocument_eq hparseFront, opening?_join hwhole hsegments hparse,
    opening?_join hfront hfronts hparseFront, hpath, Option.map_map]
  obtain ⟨first, others, rfl⟩ := List.exists_cons_of_ne_nil hfront
  rfl

/-- Behind a slash, a path goes on in the current document. -/
theorem follow_join_true {segments tokens : List String}
    (hparse : parse (join true segments) = .ok tokens) {trail : List Point} {document : String}
    {target : Point} : s.follow (join true segments) trail = .ok (document, target) ↔
      s.documents.contains document = true ∧ document = s.current ∧
        resolve tokens trail = .ok target := by
  have hnone : s.namedDocument (join true segments) tokens = none := by
    simp only [namedDocument, toList_join_true]
  rw [follow_eq_ok_of_parse hparse, hnone]
  simp

/-- **A pointer that is cut in two leads where its parts lead one after the other**, the second one
in the document and from the point that the first one has led to. -/
theorem follow_join_append (hfront : front ≠ []) (hback : back ≠ [])
    (hsegments : ∀ segment ∈ front ++ back, IsSegment segment)
    (hparse : parse (join rooted (front ++ back)) = .ok path) {point : Option Point}
    {trail : List Point} (hpoint : ∀ p, point = some p → p.Spelled)
    (htrail : trailOf point = .ok trail) {document : String} {target : Point} :
    s.follow (join rooted (front ++ back)) trail = .ok (document, target) ↔
      ∃ middle, s.follow (join rooted front) trail = .ok (document, middle) ∧
        { s with current := document }.follow (join true back) middle.lineage.reverse =
          .ok (document, target) := by
  obtain ⟨hparseFront, hparseBack, hpath⟩ := parse_join_append hfront hback hsegments hparse
  have hnamed := namedDocument_join_append (s := s) hfront hback hsegments hparse
  -- A path into a document starts at its root, which is where one without a point starts.
  have hroot : ∀ p, (none : Option Point) = some p → p.Spelled := by simp
  simp only [follow_join_true hparseBack, follow_eq_ok_of_parse hparseFront]
  rw [follow_eq_ok_of_parse hparse, hnamed]
  constructor
  · rintro ⟨hthere, ⟨_, hsome, hresolve⟩ | ⟨hnone, hcurrent, hresolve⟩⟩
    · obtain ⟨⟨d, rest⟩, hfirst, hd⟩ := Option.map_eq_some_iff.mp hsome
      cases hd
      obtain ⟨middle, hmiddle, htarget⟩ := (resolve_append hroot rfl).mp hresolve
      exact ⟨middle, ⟨hthere, .inl ⟨rest, hfirst, hmiddle⟩⟩, hthere, trivial, htarget⟩
    · rw [hpath] at hresolve
      obtain ⟨middle, hmiddle, htarget⟩ := (resolve_append hpoint htrail).mp hresolve
      have hfirst := Option.map_eq_none_iff.mp hnone
      exact ⟨middle, ⟨hthere, .inr ⟨hfirst, hcurrent, hmiddle⟩⟩, hthere, trivial, htarget⟩
  · rintro ⟨middle, ⟨hthere, hwhere⟩, -, -, htarget⟩
    refine ⟨hthere, ?_⟩
    rcases hwhere with ⟨rest, hfirst, hmiddle⟩ | ⟨hfirst, hcurrent, hmiddle⟩
    · rw [hfirst]
      exact .inl ⟨_, rfl, (resolve_append hroot rfl).mpr ⟨middle, hmiddle, htarget⟩⟩
    · rw [hfirst, hpath]
      exact .inr ⟨rfl, hcurrent, (resolve_append hpoint htrail).mpr ⟨middle, hmiddle, htarget⟩⟩

/-- The points of a run have trails, so a rule that stops in the middle does not fail there. -/
theorem locate_join_append (hfront : front ≠ []) (hback : back ≠ [])
    (hsegments : ∀ segment ∈ front ++ back, IsSegment segment)
    (hparse : parse (join rooted (front ++ back)) = .ok path) {point : Option Point}
    (hpoint : ∀ p, point = some p → p.Spelled) {place : Place} :
    s.locate (join rooted (front ++ back)) point = .ok place ↔
      ∃ middle, s.locate (join rooted front) point = .ok middle ∧
        { s with current := middle.document }.locate (join true back) (some middle.point) =
          .ok place := by
  obtain ⟨-, hparseBack, -⟩ := parse_join_append hfront hback hsegments hparse
  constructor
  · intro h
    obtain ⟨trail, above, htrail, hfollow, habove⟩ := locate_eq_ok.mp h
    obtain ⟨middle, hfirst, hsecond⟩ :=
      (follow_join_append hfront hback hsegments hparse hpoint htrail).mp hfollow
    have hmiddle : middle.Spelled := spelled_of_follow hfirst (spelled_of_trailOf hpoint htrail)
    exact ⟨⟨place.document, middle⟩,
      locate_eq_ok.mpr ⟨trail, _, htrail, hfirst, hmiddle.trail⟩,
      locate_eq_ok.mpr ⟨_, above, trailOf_some_eq_ok.mpr hmiddle.trail, hsecond, habove⟩⟩
  · rintro ⟨⟨document, middle⟩, hfirst, hsecond⟩
    have hmiddle : middle.Spelled := spelled_of_locate hfirst hpoint
    obtain ⟨trail, -, htrail, hfollow, -⟩ := locate_eq_ok.mp hfirst
    obtain ⟨trail', above, htrail', hfollow', habove⟩ := locate_eq_ok.mp hsecond
    rw [trailOf_some_eq_ok, hmiddle.trail, Except.ok.injEq] at htrail'
    subst htrail'
    have hdocument : place.document = document := ((follow_join_true hparseBack).mp hfollow').2.1
    rw [hdocument] at hfollow'
    refine locate_eq_ok.mpr ⟨trail, above, htrail, ?_, habove⟩
    rw [hdocument]
    exact (follow_join_append hfront hback hsegments hparse hpoint htrail).mpr
      ⟨middle, hfollow, hfollow'⟩

end Session

/-! ## Rules -/

/-- A rule that is a path moves to the place that the path leads to, and reads there. -/
theorem Rule.run_path_eq_ok {path : String} {point : Option Point} {cascade : Value}
    {s t : Session} {o : Outcome} : (Rule.run (.path path) point cascade).on s = (.ok o, t) ↔
      ∃ place, s.locate path point = .ok place ∧ o = ⟨s.valueAt place, some place.point⟩ ∧
        t = { s with current := place.document } := by
  simp only [Rule.run]
  rw [Run.on_bind_eq_ok]
  constructor
  · rintro ⟨r, u, hreading, hpure⟩
    rcases takeReading_eq_ok hreading with ⟨_, place, hpath, hplace, rfl, rfl⟩ | ⟨hpath, -⟩
    · cases hpath
      obtain ⟨rfl, rfl⟩ := Run.on_pure_eq_ok.mp hpure
      exact ⟨place, hplace, rfl, rfl⟩
    · cases hpath
  · rintro ⟨place, hplace, rfl, rfl⟩
    refine ⟨⟨s.valueAt place, place.point, true⟩, _, ?_, Run.on_pure_eq_ok.mpr ⟨rfl, rfl⟩⟩
    rw [takeReading_path_on, hplace]

/-- **A path in two steps.** Wherever a run calls a rule, and whatever point it hands on, a path
that is accepted can be cut at any slash between two of its segments: one rule that follows the
whole path succeeds exactly if two rules of a cascade do of which the first follows the part before
the slash and the second the rest, with the slash. Then both ways end with the same value at the
same point, in the same document, and with the same documents. -/
theorem Evaluator.path_in_two_steps (evaluator : Evaluator) {rule : Rule} {site : Site}
    {handed : Value} {s : Session} (hcall : Event.called rule site handed s ∈ evaluator.trace)
    (hfront : front ≠ []) (hback : back ≠ [])
    (hsegments : ∀ segment ∈ front ++ back, IsSegment segment)
    (hparse : parse (join rooted (front ++ back)) = .ok path) (cascade : Value) (o : Outcome)
    (t : Session) :
    (Rule.run (.path (join rooted (front ++ back))) site.point cascade).on s = (.ok o, t) ↔
      (Rule.run (.path (join rooted front)) site.point cascade >>= fun middle =>
        Rule.run (.path (join true back)) middle.point middle.value).on s = (.ok o, t) := by
  have hfits : site.Fits s.current := evaluator.history.sound hcall
  rw [Run.on_bind_eq_ok]
  simp only [Rule.run_path_eq_ok,
    Session.locate_join_append hfront hback hsegments hparse hfits.point_spelled]
  constructor
  · rintro ⟨place, ⟨middle, hfirst, hsecond⟩, rfl, rfl⟩
    exact ⟨_, _, ⟨middle, hfirst, rfl, rfl⟩, place, hsecond, rfl, rfl⟩
  · rintro ⟨_, _, ⟨middle, hfirst, rfl, rfl⟩, place, hsecond, rfl, rfl⟩
    exact ⟨place, ⟨middle, hfirst, hsecond⟩, rfl, rfl⟩

end Cut

/-- A document that the path of the second rule leaves, and one that it leads into, through an
object and up again. -/
def Evaluator.thereAndBack : Evaluator where
  rules := [.path "/o", .path "B/x/a~1b/../../c/0"]
  primary := "A"
  documents := ⟨"A", [("$vars", .obj []), ("A", .obj [("$id", .str "A"), ("o", .null)]),
    ("B", .obj [("$id", .str "B"), ("c", .arr [.ofInt 7])])]⟩

theorem Evaluator.thereAndBack_in_two_steps :
    ∃ rule site handed s, Event.called rule site handed s ∈ Evaluator.thereAndBack.trace ∧
      s.current = "A" ∧ site.point = some (Point.documentRoot.child "o") ∧
      join false (["B", "x", "a~1b"] ++ ["..", "..", "c", "0"]) = "B/x/a~1b/../../c/0" ∧
      (Rule.run (.path "B/x/a~1b") site.point handed >>= fun middle =>
        Rule.run (.path "/../../c/0") middle.point middle.value).on s =
          (.ok ⟨.json (.ofInt 7), some ((Point.documentRoot.child "c").child "0")⟩,
            { s with current := "B" }) := by
  have hcall : Event.called (.path "B/x/a~1b/../../c/0")
      ⟨some ⟨"A", Point.documentRoot.child "o"⟩, none⟩ (.json .null)
      ⟨Evaluator.thereAndBack.documents, "A"⟩ ∈ Evaluator.thereAndBack.trace :=
    List.mem_of_getElem? (i := 2) rfl
  have hparse : parse (join false (["B", "x", "a~1b"] ++ ["..", "..", "c", "0"])) =
      .ok ["B", "x", "a/b", "..", "..", "c", "0"] := rfl
  have hsegments : ∀ segment ∈ ["B", "x", "a~1b"] ++ ["..", "..", "c", "0"], IsSegment segment := by
    decide
  refine ⟨_, _, _, _, hcall, rfl, rfl, rfl, ?_⟩
  refine (Evaluator.path_in_two_steps thereAndBack hcall (by simp) (by simp) hsegments hparse
    (.json .null) _ _).mp ?_
  rfl

end DocumentRules
