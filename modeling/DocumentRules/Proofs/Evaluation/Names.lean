import DocumentRules.Proofs.Evaluation.Sessions

/-!
# The names of the documents

Documents are found by name, so a name that a run could lose would be a look-up that fails. None can
be lost. A run writes to documents that it has found and puts what it has written where it found
it. That holds when it replaces the whole of a document, its own `$id` included: the name of a
document is read when the set is made, and never again. The current document is always one that a
path has led to or that the run has started in.

`Evaluator.names_of_sessions` says so for every session of every run, in terms of the documents that
the set was made from, and says of which lists a set can be made.
-/

set_option autoImplicit false

namespace DocumentRules

/-- The documents have the names of some others, in the same order, and the same first one; the
current document is one of them. -/
structure Session.NamedAs (documents : Documents) (s : Session) : Prop where
  keys : Table.keys s.documents.table = Table.keys documents.table
  first : s.documents.first = documents.first
  current : s.current ∈ Table.keys documents.table

theorem Session.namedAs_lasting (documents : Documents) :
    Session.Lasting (Session.NamedAs documents) where
  moved := by
    intro s path point place h hplace
    obtain ⟨doc, hdoc⟩ := Session.get?_of_locate hplace
    refine ⟨h.keys, h.first, ?_⟩
    rw [← h.keys]
    exact Table.mem_keys_iff.mpr (Documents.contains_of_get? hdoc)
  written := by
    intro s t path point value h hwrite
    obtain ⟨_, document, _, doc, _, doc', -, -, hdoc, -, rfl⟩ := Session.write_eq_ok.mp hwrite
    have hkeys : Table.keys (Table.put document doc' s.documents.table) =
        Table.keys s.documents.table := Table.keys_put doc' (Documents.contains_of_get? hdoc)
    exact ⟨hkeys.trans h.keys, h.first, h.current⟩
  restored := by
    intro s t hs ht
    exact ⟨ht.keys, ht.first, hs.current⟩

/-- **No run changes the names of the documents.** A set can be made of some documents exactly if
there is one at least, all name themselves, no two the same, and none with the reserved name. If an
evaluator is made with them, then in every session that its runs go through, however many there are
and whether they fail, the names are those of the documents and the reserved one, the first document
is the same, and the current one is one of them. -/
theorem Evaluator.names_of_sessions :
    (∀ docs, (∃ documents, Documents.ofList docs = .ok documents) ↔
      docs ≠ [] ∧ (∀ doc ∈ docs, ∃ id, Documents.NamesItself doc id ∧ id ≠ "$vars") ∧
        docs.Pairwise fun a b =>
          ∀ id, Documents.NamesItself a id → ¬ Documents.NamesItself b id) ∧
    (∀ rules docs primary evaluator, Evaluator.new rules docs primary = .ok evaluator →
      ∀ runs, ∀ s ∈ evaluator.sessionsTimes runs,
        (∀ id, id ∈ Table.keys s.documents.table ↔
          id = "$vars" ∨ ∃ doc ∈ docs, Documents.NamesItself doc id) ∧
        s.documents.first = evaluator.documents.first ∧
        s.current ∈ Table.keys s.documents.table) := by
  refine ⟨fun docs => Documents.ofList_isOk_iff_names, ?_⟩
  intro rules docs primary evaluator hnew runs s hs
  obtain ⟨-, -, hdocuments, -⟩ := Evaluator.new_eq_ok.mp hnew
  have hstart : evaluator.start.NamedAs evaluator.documents :=
    ⟨rfl, rfl, Table.mem_keys_iff.mpr (Evaluator.contains_primary hnew)⟩
  have hnamed := Evaluator.holds_of_sessionsTimes
    (Session.namedAs_lasting evaluator.documents) runs hstart s hs
  rw [hnamed.keys]
  exact ⟨fun id => Documents.mem_keys_ofList hdocuments, hnamed.first, hnamed.current⟩

/-- Goes to another document from an element, puts null in place of the document that the element is
in, and then goes up too far. -/
def Evaluator.displacing : Evaluator where
  rules := [.action (some "/xs") (.inspect .map (some
    [.action (some "B") (.set "A" (some (.literal .null))), .path "../../.."]))]
  primary := "A"
  documents := ⟨"A", [("$vars", .obj []),
    ("A", .obj [("$id", .str "A"), ("xs", .arr [.null])]), ("B", .obj [("$id", .str "B")])]⟩

/-- The document that is left without its `$id` is still there, by its name, while the sequence is
on its way in the other document. -/
theorem Evaluator.displacing_names :
    Evaluator.new Evaluator.displacing.rules
        [.obj [("$id", .str "A"), ("xs", .arr [.null])], .obj [("$id", .str "B")]] none =
      .ok .displacing ∧
    ∃ s ∈ Evaluator.displacing.sessionsTimes 2, s.current = "B" ∧
      s.documents.get? "A" = some .null ∧ s.current ∈ Table.keys s.documents.table ∧
      ∀ id, id ∈ Table.keys s.documents.table ↔ id = "$vars" ∨
        ∃ doc ∈ [Json.obj [("$id", .str "A"), ("xs", .arr [.null])], .obj [("$id", .str "B")]],
          Documents.NamesItself doc id := by
  have hnew : Evaluator.new Evaluator.displacing.rules
      [.obj [("$id", .str "A"), ("xs", .arr [.null])], .obj [("$id", .str "B")]] none =
    .ok .displacing := rfl
  -- The session in which the rule that fails is called.
  have hs := List.mem_of_getElem? (l := Evaluator.displacing.sessionsTimes 2) (i := 11) rfl
  obtain ⟨hnames, -, hcurrent⟩ :=
    Evaluator.names_of_sessions.2 _ _ _ _ hnew 2 _ hs
  exact ⟨hnew, _, hs, rfl, rfl, hcurrent, hnames⟩

end DocumentRules
