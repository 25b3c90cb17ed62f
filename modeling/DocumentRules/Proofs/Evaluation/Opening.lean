import DocumentRules.Proofs.Evaluation.Step

/-!
# The documents that a path asks for

Where a path leads is a matter of names, and of very few of them. A path that does not start with a
slash asks whether its first token is the name of a document, its *opening*. If it is, the path
leads into that document; every other path stays in the current one, which must be there. So two
sessions in which the current document is the same and that agree on these two names agree on where
the path leads (`Session.follow_congr_of_opening`).
-/

set_option autoImplicit false

namespace DocumentRules

/-- The first token of a path that does not start with a slash. -/
def Pointer.opening? (path : String) : Option String :=
  match path.toList with
  | '/' :: _ => none
  | _ => (Pointer.parse path).toOption.bind List.head?

theorem Pointer.opening?_of_slash {path : String} {rest : List Char}
    (h : path.toList = '/' :: rest) : Pointer.opening? path = none := by
  simp [Pointer.opening?, h]

theorem Pointer.opening?_of_no_slash {path : String} (h : ∀ rest, path.toList ≠ '/' :: rest) :
    Pointer.opening? path = (Pointer.parse path).toOption.bind List.head? := by
  unfold Pointer.opening?
  split
  · next hslash => exact absurd hslash (h _)
  · rfl

namespace Session

variable {s t : Session} {path : String}

/-- The document that the path leads into. -/
def destination (s : Session) (path : String) : String :=
  ((Pointer.opening? path).filter s.documents.contains).getD s.current

theorem namedDocument_eq {tokens : List String} (h : Pointer.parse path = .ok tokens) :
    s.namedDocument path tokens =
      ((Pointer.opening? path).filter s.documents.contains).map fun id => (id, tokens.tail) := by
  unfold namedDocument
  split
  · next hslash => rw [Pointer.opening?_of_slash hslash]; rfl
  · next hslash =>
    rw [Pointer.opening?_of_no_slash hslash, h]
    rfl
  · next first rest hslash =>
    rw [Pointer.opening?_of_no_slash hslash, h]
    by_cases hfirst : s.documents.contains first <;> simp [Except.toOption, Option.filter, hfirst]

theorem document_of_follow {document : String} {trail : List Point} {target : Point}
    (h : s.follow path trail = .ok (document, target)) : document = s.destination path := by
  unfold destination
  obtain ⟨tokens, hparse, -, ⟨rest, hnamed, -⟩ | ⟨hnamed, rfl, -⟩⟩ := follow_eq_ok.mp h
  · rw [namedDocument_eq hparse, Option.map_eq_some_iff] at hnamed
    obtain ⟨id, hid, hdocument⟩ := hnamed
    cases hdocument
    rw [hid]
    rfl
  · rw [namedDocument_eq hparse, Option.map_eq_none_iff] at hnamed
    rw [hnamed]
    rfl

/-- **A path asks for two documents at most**: the current one, and the one of its opening. -/
theorem follow_congr_of_opening (hcurrent : s.current = t.current)
    (hhere : s.documents.contains s.current = t.documents.contains s.current)
    (hopening : ∀ id, Pointer.opening? path = some id →
      s.documents.contains id = t.documents.contains id) (trail : List Point) :
    s.follow path trail = t.follow path trail := by
  have hfilter : (Pointer.opening? path).filter s.documents.contains =
      (Pointer.opening? path).filter t.documents.contains := by
    cases h : Pointer.opening? path with
    | none => rfl
    | some id => simp only [Option.filter, hopening id h]
  unfold follow
  cases hparse : Pointer.parse path with
  | error error => rfl
  | ok tokens =>
    simp only [mapError_ok, bind, Except.bind, namedDocument_eq hparse, ← hfilter]
    -- A document that is named is there in both; otherwise it is the current one.
    cases hnamed : (Pointer.opening? path).filter s.documents.contains with
    | none =>
      rw [hcurrent] at hhere
      simp only [Option.map_none, hcurrent, hhere]
    | some id =>
      rw [Option.filter_eq_some_iff] at hnamed
      simp only [Option.map_some, hopening id hnamed.1]

theorem locate_congr_of_opening (hcurrent : s.current = t.current)
    (hhere : s.documents.contains s.current = t.documents.contains s.current)
    (hopening : ∀ id, Pointer.opening? path = some id →
      s.documents.contains id = t.documents.contains id) (point : Option Point) :
    s.locate path point = t.locate path point := by
  unfold locate
  simp only [follow_congr_of_opening hcurrent hhere hopening]

end Session

end DocumentRules
