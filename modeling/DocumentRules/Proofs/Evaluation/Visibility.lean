import DocumentRules.Proofs.Documents
import DocumentRules.Proofs.Evaluation.History
import DocumentRules.Proofs.Evaluation.Opening
import DocumentRules.Proofs.Pointer.Lens

/-!
# What is read after a write

A live point holds no value. It is read when a rule gets there, so what a rule reads depends on
the documents of that moment alone, and not on when its point was made. Together with the laws of a
written document (`Json.get?_set_below`, `Json.get?_set_of_apart`) this gives the law of reading in
a run: from a write to the next, every rule that reads at or below the place written reads in what
was written, and every rule that reads in another document or apart from that place reads what it
would have read before (`Evaluator.read_after_write`).

The laws are stated for one write first, and then carried along the history of a run, in which the
documents are the same from one write to the next.
-/

set_option autoImplicit false

namespace DocumentRules

/-! ## Documents after a write -/

/-- A write appends to an array at the place, through the token that names no position. -/
def Session.AppendsAt (s : Session) (place : Place) : Prop :=
  ∃ doc, s.documents.get? place.document = some doc ∧ doc.AppendsAt place.point.keys

theorem Session.not_appendsAt {s : Session} {place : Place}
    (h : place.point.keys.getLast? ≠ some "-") : ¬ s.AppendsAt place := by
  rintro ⟨doc, -, parent, items, hkeys, -⟩
  exact h (by rw [hkeys, List.getLast?_concat])

/-- A write leads where a reading from the same point would: the document of that place takes the
value, and the others stay. -/
theorem Session.write_at {s t : Session} {path : String} {point : Point} {value : Json}
    {place : Place} (hplace : s.locate path (some point) = .ok place)
    (h : s.write path point value = .ok t) :
    ∃ doc old doc', s.documents.get? place.document = some doc ∧
      doc.set place.point.keys value = .ok (old, doc') ∧
      t = { s with documents := s.documents.put place.document doc' } := by
  obtain ⟨trail, document, target, doc, old, doc', htrail, hfollow, hdoc, hset, rfl⟩ :=
    Session.write_eq_ok.mp h
  obtain ⟨trail', _, htrail', hfollow', _⟩ := Session.locate_eq_ok.mp hplace
  rw [trailOf_some_eq_ok, htrail, Except.ok.injEq] at htrail'
  rw [← htrail', hfollow, Except.ok.injEq, Prod.mk.injEq] at hfollow'
  obtain ⟨rfl, rfl⟩ := hfollow'
  exact ⟨doc, old, doc', hdoc, hset, rfl⟩

/-- A live place is read in the document that is there now. -/
theorem Session.valueAt_live {s : Session} {place : Place} {doc : Json}
    (hlive : place.point.isDetached = false) (hdoc : s.documents.get? place.document = some doc) :
    s.valueAt place = .ofOption (doc.get? place.point.keys) := by
  have horigin : place.point.origin = .live := by
    cases ho : place.point.origin with
    | live => rfl
    | carried value => simp [Point.isDetached, ho] at hlive
  simp only [Session.valueAt, Session.read, hdoc, Point.value?, horigin]

theorem Session.valueAt_congr {s t : Session} (h : s.documents = t.documents) (place : Place) :
    s.valueAt place = t.valueAt place := by
  rw [Session.valueAt, Session.valueAt, Session.read, Session.read, h]

section Write

variable {s t : Session} {path : String} {point : Point} {value : Json} {target place : Place}

/-- What is read at or below the place written is read in what was written. -/
theorem Session.valueAt_below_write (htarget : s.locate path (some point) = .ok target)
    (h : s.write path point value = .ok t) (happend : ¬ s.AppendsAt target)
    (hlive : place.point.isDetached = false) (hdocument : place.document = target.document)
    {rest : List String} (hkeys : place.point.keys = target.point.keys ++ rest) :
    t.valueAt place = .ofOption (value.get? rest) := by
  obtain ⟨doc, old, doc', hdoc, hset, rfl⟩ := Session.write_at htarget h
  have hdoc' : (s.documents.put target.document doc').get? place.document = some doc' := by
    rw [hdocument]
    exact Table.lookup_put_self _ _ _
  rw [Session.valueAt_live hlive hdoc', hkeys,
    Json.get?_set_below hset (fun happ => happend ⟨doc, hdoc, happ⟩)]

/-- What is read in another document, or apart from the place written, is read as before. -/
theorem Session.valueAt_apart_write (htarget : s.locate path (some point) = .ok target)
    (h : s.write path point value = .ok t) (happend : ¬ s.AppendsAt target)
    (hlive : place.point.isDetached = false)
    (hapart : place.document ≠ target.document ∨ Apart target.point.keys place.point.keys) :
    t.valueAt place = s.valueAt place := by
  obtain ⟨doc, old, doc', hdoc, hset, rfl⟩ := Session.write_at htarget h
  by_cases hdocument : place.document = target.document
  · have hkeys := hapart.resolve_left (not_not_intro hdocument)
    have hdoc' : (s.documents.put target.document doc').get? place.document = some doc' := by
      rw [hdocument]
      exact Table.lookup_put_self _ _ _
    rw [Session.valueAt_live hlive hdoc', Session.valueAt_live hlive (hdocument ▸ hdoc),
      Json.get?_set_of_apart hset (fun happ => happend ⟨doc, hdoc, happ⟩) hkeys]
  · have hget : (s.documents.put target.document doc').get? place.document =
        s.documents.get? place.document := Table.lookup_put_of_ne _ _ hdocument
    simp only [Session.valueAt, Session.read, hget]

theorem Session.contains_of_write (h : s.write path point value = .ok t) (id : String) :
    t.documents.contains id = s.documents.contains id := by
  obtain ⟨_, document, _, doc, _, doc', _, _, hdoc, _, rfl⟩ := Session.write_eq_ok.mp h
  have hthere : s.documents.contains document = true := Documents.contains_of_get? hdoc
  show Table.contains id (Table.put document doc' s.documents.table) = _
  rw [Table.contains_put]
  by_cases hid : id = document
  · rw [hid, hthere]
    simp
  · simp [hid, Documents.contains]

end Write

/-! ## Where a path leads does not depend on what the documents hold -/

theorem Session.locate_congr {s t : Session} (hcurrent : s.current = t.current)
    (h : ∀ id, s.documents.contains id = t.documents.contains id) (path : String)
    (point : Option Point) : s.locate path point = t.locate path point :=
  Session.locate_congr_of_opening hcurrent (h s.current) (fun id _ => h id) point

/-! ## From one write to the next -/

/-- Whether the event is a write. -/
def Event.isWrite : Event → Bool
  | .wrote _ _ _ _ _ _ => true
  | _ => false

namespace History

variable {first last : Documents} {events : List Event}

theorem eq_of_no_write (h : History first events last)
    (hevents : ∀ event ∈ events, event.isWrite = false) : last = first := by
  induction h with
  | nil documents => rfl
  | @cons event events first last sound start rest ih =>
    rw [ih fun e he => hevents e (List.mem_cons_of_mem _ he), ← start]
    cases event with
    | called rule site cascade s => rfl
    | read path site place value s => rfl
    | wrote path site place value before after =>
      exact absurd (hevents _ List.mem_cons_self) (by simp [Event.isWrite])

end History

/-- **Reading after a write.** In every run, from a write that does not append to the next write, a
rule whose path leads to a live place at or below the one written reads in what was written; and one
whose path leads to a live place in another document, or apart from the one written, is led there
and reads what it would have read with the documents from before the write. When the point was made
that the path starts from does not matter. -/
theorem Evaluator.read_after_write (evaluator : Evaluator) (xs ys zs : List Event)
    {path path' : String} {site site' : Site} {target place : Place} {written : Json}
    {value : Value} {before after s : Session}
    (htrace : evaluator.trace = xs ++ .wrote path site target written before after ::
      (ys ++ .read path' site' place value s :: zs))
    (hbetween : ∀ event ∈ ys, event.isWrite = false) (happend : ¬ before.AppendsAt target)
    (hlive : place.point.isDetached = false) :
    (∀ rest, place.document = target.document →
      place.point.keys = target.point.keys ++ rest → value = .ofOption (written.get? rest)) ∧
    (place.document ≠ target.document ∨ Apart target.point.keys place.point.keys →
      ({ s with documents := before.documents } : Session).locate path' site'.point = .ok place ∧
        value = before.valueAt place) := by
  have hhistory := evaluator.history
  rw [htrace] at hhistory
  obtain ⟨middle, -, hrest⟩ := hhistory.split
  cases hrest with
  | cons hwrote _ hrest =>
  obtain ⟨-, origin, -, htarget, hwrite⟩ := hwrote
  obtain ⟨middle, hquiet, hrest⟩ := hrest.split
  have hsame := hquiet.eq_of_no_write hbetween
  cases hrest with
  | cons hread hstart _ =>
  obtain ⟨-, hplace, rfl⟩ := hread
  -- Nothing has been written since, so the reading is one in the session after the write.
  have hdocuments : s.documents = after.documents := hstart.trans hsame
  rw [Session.valueAt_congr hdocuments]
  constructor
  · intro rest hdocument hkeys
    exact Session.valueAt_below_write htarget hwrite happend hlive hdocument hkeys
  · intro hapart
    refine ⟨?_, Session.valueAt_apart_write htarget hwrite happend hlive hapart⟩
    have hids : ∀ id, before.documents.contains id = s.documents.contains id := by
      intro id
      rw [hdocuments, Session.contains_of_write hwrite id]
    rw [← hplace]
    exact Session.locate_congr (s := ⟨before.documents, s.current⟩) (t := s) rfl hids path' _

/-- Goes to an object, writes into it, and reads below what was written, from the point that was
reached before the write. -/
def Evaluator.writeThenRead : Evaluator where
  rules := [.path "/o", .action none (.set "/k" (some (.literal (.obj [("n", .ofInt 5)])))),
    .path "/k/n"]
  primary := "D"
  documents := ⟨"D", [("$vars", .obj []),
    ("D", .obj [("$id", .str "D"), ("o", .obj [("k", .null)])])]⟩

theorem Evaluator.writeThenRead_reads :
    ∃ xs site target before after ys site' place s zs,
      Evaluator.writeThenRead.trace =
        xs ++ .wrote "/k" site target (.obj [("n", .ofInt 5)]) before after ::
          (ys ++ .read "/k/n" site' place (.json (.ofInt 5)) s :: zs) ∧
      place.point.keys = target.point.keys ++ ["n"] ∧
      Value.json (.ofInt 5) = .ofOption ((Json.obj [("n", .ofInt 5)]).get? ["n"]) := by
  have hquiet : ∀ event ∈ (Evaluator.writeThenRead.trace.drop 4).take 1, event.isWrite = false := by
    intro event hevent
    have h : ((Evaluator.writeThenRead.trace.drop 4).take 1).all (fun e => !e.isWrite) = true := rfl
    simpa using List.all_eq_true.mp h event hevent
  refine ⟨Evaluator.writeThenRead.trace.take 3, _, _, _, _,
    (Evaluator.writeThenRead.trace.drop 4).take 1, _, _, _, Evaluator.writeThenRead.trace.drop 6,
    rfl, rfl, ?_⟩
  exact (Evaluator.read_after_write Evaluator.writeThenRead (Evaluator.writeThenRead.trace.take 3)
    ((Evaluator.writeThenRead.trace.drop 4).take 1) (Evaluator.writeThenRead.trace.drop 6)
    rfl hquiet (Session.not_appendsAt (by decide)) rfl).1 ["n"] rfl rfl

end DocumentRules
