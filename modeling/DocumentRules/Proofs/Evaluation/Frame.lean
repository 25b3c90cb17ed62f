import DocumentRules.Proofs.Evaluation.Invariant
import DocumentRules.Proofs.Evaluation.Opening
import DocumentRules.Proofs.Evaluation.Visibility
import Mathlib.Data.Set.Insert

/-!
# Documents that no rule writes to

Rules may leave a run in the middle and in any document, so what a run writes to cannot be read off
the document that it ends in. It can be read off the rules. A write at a path that opens with the
name of a document goes into that document, whatever is current and whatever point it starts from.
If all writes of a list of rules open with names from a set, then no document outside the set ever
changes, over any number of runs that succeed or fail (`Evaluator.runTimes_frame`).

Where nothing is written at all, a run leaves the evaluator as it was, and the next one repeats it.
-/

set_option autoImplicit false

namespace DocumentRules

/-- A path that opens with one of some names, unless it is refused and leads nowhere. -/
def Pointer.OpensIn (ids : Set String) (path : String) : Prop :=
  ∀ tokens, Pointer.parse path = .ok tokens → ∃ id ∈ ids, Pointer.opening? path = some id

/-- A property of the documents alone. -/
def Invariant.ofDocuments (P : Documents → Prop) : Invariant where
  sessions s := P s.documents
  points _ := True
  faults _ := True

/-- It is kept if writes keep it, since nothing else touches the documents. -/
theorem Invariant.ofDocuments_lawful {P : Documents → Prop} {writes : String → Prop}
    (hwrite : ∀ {path : String} {p : Point} {s t : Session} {value : Json}, writes path →
      P s.documents → s.write path p value = .ok t → P t.documents) :
    (Invariant.ofDocuments P).Lawful (fun _ => True) writes where
  restored _ ht := ht
  located _ _ hs _ := ⟨trivial, hs⟩
  unlocated _ _ _ _ := trivial
  pointless _ := trivial
  trailless _ _ := trivial
  carrying _ _ := trivial
  descend _ _ _ := trivial
  written hpath _ hs h := hwrite hpath hs h
  unwritten _ _ _ _ := trivial
  operator _ := trivial

namespace Session

variable {s t : Session} {path : String} {point : Point} {value : Json}

/-- A write touches the document that its path leads into, and no other. -/
theorem get?_of_write (h : s.write path point value = .ok t) {id : String}
    (hid : id ≠ s.destination path) : t.documents.get? id = s.documents.get? id := by
  obtain ⟨trail, document, target, doc, old, doc', -, hfollow, -, -, rfl⟩ := write_eq_ok.mp h
  rw [← document_of_follow hfollow] at hid
  exact Table.lookup_put_of_ne doc' s.documents.table hid

theorem destination_of_opening {id : String} (h : Pointer.opening? path = some id)
    (hid : s.documents.contains id = true) : s.destination path = id := by
  simp [destination, h, Option.filter, hid]

theorem parse_of_write (h : s.write path point value = .ok t) :
    ∃ tokens, Pointer.parse path = .ok tokens := by
  obtain ⟨_, _, _, _, _, _, -, hfollow, -⟩ := write_eq_ok.mp h
  obtain ⟨tokens, hparse, -⟩ := follow_eq_ok.mp hfollow
  exact ⟨tokens, hparse⟩

end Session

/-- The documents are those of the start by name, and unchanged outside some of them. -/
def Documents.UnchangedOutside (ids : Set String) (start documents : Documents) : Prop :=
  (∀ id, documents.contains id = start.contains id) ∧
    ∀ id, id ∉ ids → documents.get? id = start.get? id

/-- Writes that open with names of documents stay in those documents. -/
theorem Documents.UnchangedOutside.write {ids : Set String} {start : Documents}
    (hids : ∀ id ∈ ids, start.contains id = true) {s t : Session} {path : String} {point : Point}
    {value : Json} (hpath : Pointer.OpensIn ids path)
    (h : UnchangedOutside ids start s.documents) (hwrite : s.write path point value = .ok t) :
    UnchangedOutside ids start t.documents := by
  obtain ⟨hnames, hsame⟩ := h
  obtain ⟨tokens, hparse⟩ := Session.parse_of_write hwrite
  obtain ⟨opening, hopening, hopens⟩ := hpath tokens hparse
  have hdestination : s.destination path = opening :=
    Session.destination_of_opening hopens ((hnames opening).trans (hids opening hopening))
  refine ⟨fun id => ?_, fun id hid => ?_⟩
  · rw [Session.contains_of_write hwrite]
    exact hnames id
  · have hne : id ≠ s.destination path := by
      rintro rfl
      exact hid (hdestination ▸ hopening)
    rw [Session.get?_of_write hwrite hne]
    exact hsame id hid

/-- Rules that never write leave the evaluator as it was. -/
theorem Evaluator.run_of_no_write {evaluator : Evaluator}
    (h : Rule.AllWithin (fun _ => True) (fun _ => False) evaluator.rules) :
    evaluator.run.2 = evaluator := by
  have law : (Invariant.ofDocuments (· = evaluator.documents)).Lawful (fun _ => True)
      (fun _ => False) := Invariant.ofDocuments_lawful fun hpath => hpath.elim
  have hpoint : (Invariant.ofDocuments (· = evaluator.documents)).points none := trivial
  have hstart : (Invariant.ofDocuments (· = evaluator.documents)).sessions evaluator.start := rfl
  have hkept : evaluator.run.2.documents = evaluator.documents :=
    (law.runAll h hpoint .undefined hstart).1
  show { evaluator with documents := evaluator.run.2.documents } = evaluator
  rw [hkept]

/-- **A run writes where its rules say.** If every path that the rules may write at, at any depth,
opens with the name of a document from a set, then no run, the first or a later one, failing or not,
changes a document outside the set. If the rules have no path to write at, every run gives the same
result or fault, and leaves everything as it was. -/
theorem Evaluator.runTimes_frame (evaluator : Evaluator) (runs : Nat) :
    (∀ ids : Set String, (∀ id ∈ ids, evaluator.documents.contains id = true) →
      Rule.AllWithin (fun _ => True) (Pointer.OpensIn ids) evaluator.rules →
        ∀ step ∈ evaluator.runTimes runs, ∀ id, id ∉ ids →
          step.2.documents.get? id = evaluator.documents.get? id) ∧
    (Rule.AllWithin (fun _ => True) (fun _ => False) evaluator.rules →
      ∀ step ∈ evaluator.runTimes runs, step = (evaluator.run.1, evaluator)) := by
  constructor
  · intro ids hids hrules step hstep id hid
    have law : (Invariant.ofDocuments (Documents.UnchangedOutside ids evaluator.documents)).Lawful
        (fun _ => True) (Pointer.OpensIn ids) :=
      Invariant.ofDocuments_lawful fun hpath h hwrite => h.write hids hpath hwrite
    have hpoint : (Invariant.ofDocuments
        (Documents.UnchangedOutside ids evaluator.documents)).points none := trivial
    have hkept := law.runTimes hrules hpoint rfl ⟨fun _ => rfl, fun _ _ => rfl⟩ runs step hstep
    exact hkept.1.2 id hid
  · intro hrules
    refine Evaluator.forall_runTimes (P := (· = evaluator)) ?_ runs evaluator rfl
    rintro e rfl
    have hrun := Evaluator.run_of_no_write hrules
    exact ⟨Prod.ext rfl hrun, hrun⟩

/-- Notes each element of an array in another document, and then goes up too far. -/
def Evaluator.noteAndFail : Evaluator where
  rules := [.action (some "/x") (.inspect .map (some [.action none (.set "B/n" none),
    .path ".."])), .path "../.."]
  primary := "A"
  documents := ⟨"A", [("$vars", .obj []),
    ("A", .obj [("$id", .str "A"), ("x", .arr [.ofInt 1, .ofInt 2])]),
    ("B", .obj [("$id", .str "B")])]⟩

/-- The same without the note. -/
def Evaluator.lookAndFail : Evaluator :=
  { Evaluator.noteAndFail with
    rules := [.action (some "/x") (.inspect .map (some [.path ".."])), .path "../.."] }

theorem Evaluator.noteAndFail_frame :
    (∀ id ∈ ({"B"} : Set String), noteAndFail.documents.contains id = true) ∧
    Rule.AllWithin (fun _ => True) (Pointer.OpensIn {"B"}) noteAndFail.rules ∧
    (∀ step ∈ noteAndFail.runTimes 2, step.2.documents.get? "A" = noteAndFail.documents.get? "A") ∧
    noteAndFail.run.2.documents.get? "B" = some (.obj [("$id", .str "B"), ("n", .ofInt 2)]) ∧
    Rule.AllWithin (fun _ => True) (fun _ => False) lookAndFail.rules ∧
    ∀ step ∈ lookAndFail.runTimes 2, step = (lookAndFail.run.1, lookAndFail) := by
  have hids : ∀ id ∈ ({"B"} : Set String), noteAndFail.documents.contains id = true := by
    intro id hid
    rw [Set.mem_singleton_iff.mp hid]
    rfl
  have hnote : Rule.AllWithin (fun _ => True) (Pointer.OpensIn {"B"}) noteAndFail.rules := by
    have hopens : Pointer.OpensIn {"B"} "B/n" := by
      intro _ _
      exact ⟨"B", Set.mem_singleton _, by decide +kernel⟩
    exact ⟨⟨fun _ _ => trivial, ⟨fun _ _ => trivial, hopens⟩, trivial, trivial⟩, trivial, trivial⟩
  have hlook : Rule.AllWithin (fun _ => True) (fun _ => False) lookAndFail.rules :=
    ⟨⟨fun _ _ => trivial, trivial, trivial⟩, trivial, trivial⟩
  refine ⟨hids, hnote, fun step hstep => ?_, rfl, hlook, ?_⟩
  · refine (Evaluator.runTimes_frame noteAndFail 2).1 {"B"} hids hnote step hstep "A" ?_
    intro h
    exact absurd (Set.mem_singleton_iff.mp h) (by decide)
  · exact (Evaluator.runTimes_frame lookAndFail 2).2 hlook

end DocumentRules
