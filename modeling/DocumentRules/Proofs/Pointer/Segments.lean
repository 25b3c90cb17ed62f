import DocumentRules.Pointer.Path
import DocumentRules.Proofs.Result

/-!
# Pointers in segments

The text of a pointer can be cut at its slashes. What stands between them are its *segments*, which
are the tokens before they are unescaped, and a pointer is joined from segments with or without a
first slash. If it is cut in two, both parts are pointers again: an escape never reaches over a
slash, and neither part is longer than the whole. The second part keeps the slash it was cut at, so
the whole is its two parts one behind the other (`Pointer.join_append`), and its path is made of
theirs (`Pointer.parse_join_append`).

Empty segments are left out. A first one could not be told from the first slash.
-/

set_option autoImplicit false

namespace DocumentRules.Pointer

/-- A text that can stand between two slashes. -/
def IsSegment (segment : String) : Prop :=
  segment ≠ "" ∧ '/' ∉ segment.toList

instance (segment : String) : Decidable (IsSegment segment) :=
  inferInstanceAs (Decidable (segment ≠ "" ∧ '/' ∉ segment.toList))

/-- The pointer of some segments, with or without a slash before them. -/
def join (rooted : Bool) (segments : List String) : String :=
  (if rooted then "/" else "") ++ "/".intercalate segments

section Parse

variable {pointer : String} {path : List String}

theorem validate_eq_ok : validate pointer = .ok () ↔
    pointer.utf8ByteSize ≤ maxPointerSize ∧ escapesValid pointer.toList = true := by
  unfold validate
  by_cases hsize : maxPointerSize < pointer.utf8ByteSize
  · simp [hsize, Nat.not_le.mpr hsize]
  · by_cases hescapes : escapesValid pointer.toList <;>
      simp [hsize, hescapes, Nat.le_of_not_lt hsize]

theorem validatePath_eq_ok : validatePath path = .ok () ↔ path.length ≤ maxPathLength := by
  unfold validatePath
  by_cases hlength : maxPathLength < path.length
  · simp [hlength, Nat.not_le.mpr hlength]
  · simp [hlength, Nat.le_of_not_lt hlength]

/-- When a pointer is accepted, and as which path. -/
theorem parse_eq_ok : parse pointer = .ok path ↔
    pointer.utf8ByteSize ≤ maxPointerSize ∧ escapesValid pointer.toList = true ∧
      path.length ≤ maxPathLength ∧ tokens pointer.toList = path := by
  unfold parse
  simp only [bind_eq_ok, pure_eq_ok]
  constructor
  · rintro ⟨_, hpointer, _, hlength, rfl⟩
    obtain ⟨hsize, hescapes⟩ := validate_eq_ok.mp hpointer
    exact ⟨hsize, hescapes, validatePath_eq_ok.mp hlength, rfl⟩
  · rintro ⟨hsize, hescapes, hlength, rfl⟩
    exact ⟨(), validate_eq_ok.mpr ⟨hsize, hescapes⟩, (), validatePath_eq_ok.mpr hlength, rfl⟩

end Parse

/-- An escape does not reach over a slash. -/
theorem escapesValid_append_slash (xs ys : List Char) :
    escapesValid (xs ++ '/' :: ys) = (escapesValid xs && escapesValid ys) := by
  fun_induction escapesValid xs with
  | case1 => simp [escapesValid]
  | case2 rest ih => simpa [escapesValid] using ih
  | case3 rest ih => simpa [escapesValid] using ih
  | case4 c rest h0 h1 ih =>
    -- What stands before the slash is no escape, and the slash does not complete one.
    have hno : ∀ d : Char, d ≠ '/' → (∀ tail, c = '~' → rest = d :: tail → False) →
        ∀ tail, c = '~' → rest ++ '/' :: ys = d :: tail → False := by
      intro d hd h tail hc hrest
      cases rest with
      | nil => exact hd (List.cons.inj hrest).1.symm
      | cons e rest =>
        rw [List.cons_append, List.cons.injEq] at hrest
        exact h rest hc (by rw [hrest.1])
    rw [List.cons_append, escapesValid.eq_4 c _ (hno '0' (by decide) h0) (hno '1' (by decide) h1),
      ih, Bool.and_assoc]

section Join

variable {rooted : Bool} {segments front back : List String}

/-- **A pointer that is cut in two** is its parts one behind the other. -/
theorem join_append (hfront : front ≠ []) (hback : back ≠ []) :
    join rooted (front ++ back) = join rooted front ++ join true back := by
  simp only [join, String.intercalate_append_of_ne_nil hfront hback, if_true, String.append_assoc]

theorem toList_join_true : (join true segments).toList =
    '/' :: ['/'].intercalate (segments.map String.toList) := by
  simp [join, String.toList_intercalate]

theorem toList_join_false : (join false segments).toList =
    ['/'].intercalate (segments.map String.toList) := by
  simp [join, String.toList_intercalate]

/-- Segments begin with something that is not a slash. -/
theorem intercalate_eq_cons (h : segments ≠ [])
    (hsegments : ∀ segment ∈ segments, IsSegment segment) :
    ∃ c rest, ['/'].intercalate (segments.map String.toList) = c :: rest ∧ c ≠ '/' := by
  obtain ⟨first, others, rfl⟩ := List.exists_cons_of_ne_nil h
  obtain ⟨hne, hslash⟩ := hsegments first List.mem_cons_self
  obtain ⟨c, rest, hfirst⟩ := List.exists_cons_of_ne_nil (mt String.toList_eq_nil_iff.mp hne)
  have hc : c ≠ '/' := by
    rintro rfl
    exact hslash (by simp [hfirst])
  cases others with
  | nil => exact ⟨c, rest, by simp [hfirst], hc⟩
  | cons second others =>
    have htext : ['/'].intercalate ((first :: second :: others).map String.toList) =
        c :: (rest ++ ['/'] ++ ['/'].intercalate ((second :: others).map String.toList)) := by
      rw [List.map_cons, List.intercalate_cons_of_ne_nil (by simp), hfirst]
      rfl
    exact ⟨c, _, htext, hc⟩

/-- The tokens of a pointer are its segments, unescaped. -/
theorem tokens_join (h : segments ≠ []) (hsegments : ∀ segment ∈ segments, IsSegment segment) :
    tokens (join rooted segments).toList = segments.map unescape := by
  obtain ⟨c, rest, htext, hc⟩ := intercalate_eq_cons h hsegments
  have hbody : body (join rooted segments).toList = c :: rest := by
    cases rooted with
    | true => rw [toList_join_true, htext, body]
    | false =>
      rw [toList_join_false, htext]
      unfold body
      split
      · next hslash => exact absurd (List.cons.inj hslash).1 hc
      · rfl
  have hsplit : (c :: rest).splitOn '/' = segments.map String.toList := by
    rw [← htext]
    refine List.splitOn_intercalate '/' ?_ (by simpa using h)
    intro text htext
    obtain ⟨segment, hsegment, rfl⟩ := List.mem_map.mp htext
    exact (hsegments segment hsegment).2
  rw [tokens, hbody]
  dsimp only
  rw [hsplit, List.map_map]
  rfl

/-- **If a pointer is accepted, so are the parts it is cut into**, and its path is theirs. -/
theorem parse_join_append (hfront : front ≠ []) (hback : back ≠ [])
    (hsegments : ∀ segment ∈ front ++ back, IsSegment segment) {path : List String}
    (h : parse (join rooted (front ++ back)) = .ok path) :
    parse (join rooted front) = .ok (front.map unescape) ∧
      parse (join true back) = .ok (back.map unescape) ∧
      path = front.map unescape ++ back.map unescape := by
  obtain ⟨hsize, hescapes, hlength, hpath⟩ := parse_eq_ok.mp h
  have hwhole : front ++ back ≠ [] := List.append_ne_nil_of_left_ne_nil hfront back
  rw [tokens_join hwhole hsegments, List.map_append] at hpath
  obtain ⟨hfronts, hbacks⟩ := List.forall_mem_append.mp hsegments
  rw [join_append hfront hback, String.utf8ByteSize_append] at hsize
  rw [join_append hfront hback, String.toList_append, toList_join_true, escapesValid_append_slash,
    Bool.and_eq_true] at hescapes
  rw [← hpath, List.length_append] at hlength
  have hslash : escapesValid (join true back).toList = true := by
    rw [toList_join_true, ← List.nil_append ('/' :: _), escapesValid_append_slash, hescapes.2]
    rfl
  refine ⟨parse_eq_ok.mpr ⟨by omega, hescapes.1, by omega, tokens_join hfront hfronts⟩,
    parse_eq_ok.mpr ⟨by omega, hslash, by omega, tokens_join hback hbacks⟩, hpath.symm⟩

end Join

end DocumentRules.Pointer
