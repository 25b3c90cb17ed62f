import DocumentRules.Proofs.Documents
import DocumentRules.Proofs.Evaluation.Indistinguishable

/-!
# The order in which documents are given

Documents are given as a list and found by name. Two things remember the list. Names must not be
taken twice, so a document is accepted or refused after those before it; and the first of them is
the one that runs start in unless another one is named. If one is named, the order makes no
difference (`Evaluator.runTimes_perm`).

For the first thing, documents that have been accepted may change places: they have different names,
and two entries under different keys come to stand in a table in the same way, whichever is put in
first (`Table.put_comm`). The second thing is never asked for again: nothing that a rule does looks
at which document was the first.
-/

set_option autoImplicit false

namespace DocumentRules

/-! ## The same table -/

namespace Documents

variable {docs docs' : List Json} {documents : Documents}

/-- Documents that can be gathered can be gathered in any order, into one table. -/
theorem gather_perm (h : docs.Perm docs') : ∀ {table table' : List (String × Json)},
    gather docs table = .ok table' → gather docs' table = .ok table' := by
  induction h with
  | nil => exact fun hgather => hgather
  | cons doc _ ih =>
    intro table table' hgather
    obtain ⟨id, hid, hvars, hfree, hrest⟩ := gather_cons_eq_ok.mp hgather
    exact gather_cons_eq_ok.mpr ⟨id, hid, hvars, hfree, ih hrest⟩
  | swap first second rest =>
    intro table table' hgather
    obtain ⟨id, hid, hvars, hfree, hgather⟩ := gather_cons_eq_ok.mp hgather
    obtain ⟨id', hid', hvars', hfree', hrest⟩ := gather_cons_eq_ok.mp hgather
    obtain ⟨hne, hfree'⟩ := contains_put_eq_false.mp hfree'
    rw [Table.put_comm hne] at hrest
    exact gather_cons_eq_ok.mpr ⟨id', hid', hvars', hfree', gather_cons_eq_ok.mpr
      ⟨id, hid, hvars, contains_put_eq_false.mpr ⟨hne.symm, hfree⟩, hrest⟩⟩
  | trans _ _ ih ih' => exact fun hgather => ih' (ih hgather)

/-- A list in another order makes a set with the same table. -/
theorem ofList_perm (h : docs.Perm docs') (hdocs : ofList docs = .ok documents) :
    ∃ documents', ofList docs' = .ok documents' ∧ documents'.table = documents.table := by
  obtain ⟨doc, rest, table, rfl, hgather, -, htable⟩ := ofList_eq_ok.mp hdocs
  have hgather' := gather_perm h hgather
  cases docs' with
  | nil => exact absurd h.eq_nil (List.cons_ne_nil doc rest)
  | cons doc' rest' =>
    obtain ⟨id, hid, -⟩ := gather_cons_eq_ok.mp hgather'
    refine ⟨⟨id, documents.table⟩, ofList_eq_ok.mpr ?_, rfl⟩
    exact ⟨doc', rest', table, rfl, hgather', hid, htable⟩

end Documents

/-! ## Whichever is the first -/

/-- Sessions with the same documents, whichever of them was given first, in the same one. -/
structure Session.AnyFirst (s t : Session) : Prop where
  current : t.current = s.current
  table : t.documents.table = s.documents.table

namespace Session.AnyFirst

variable {s t : Session}

/-- They are one session but for the name of the first document. -/
theorem exists_eq (h : AnyFirst s t) :
    ∃ first, t = { s with documents := { s.documents with first := first } } := by
  obtain ⟨⟨first, table⟩, current⟩ := s
  obtain ⟨⟨first', table'⟩, current'⟩ := t
  obtain ⟨rfl, rfl⟩ := h
  exact ⟨first', rfl⟩

theorem write (h : AnyFirst s t) (path : String) (point : Point) (value : Json) :
    Alike AnyFirst (s.write path point value) (t.write path point value) := by
  obtain ⟨first, rfl⟩ := h.exists_eq
  unfold Session.write
  refine (Alike.rfl (fun _ => rfl) _).bind fun trail _ htrail => ?_
  subst htrail
  refine (Alike.rfl (R := Eq) (fun _ => rfl) _).bind fun place _ hplace => ?_
  subst hplace
  dsimp only [Documents.get?]
  cases s.documents.table.lookup place.1 with
  | none => exact .error _
  | some doc =>
    refine (Alike.rfl (R := Eq) (fun _ => rfl) _).bind fun written _ hwritten => ?_
    subst hwritten
    exact .ok ⟨rfl, rfl⟩

/-- **No rule finds out which document was given first.** -/
theorem indistinguishable :
    Session.Indistinguishable AnyFirst (fun _ => True) (fun _ => True) where
  restored h h' := ⟨h.current, h'.table⟩
  located := by
    intro path s t _ h point
    obtain ⟨first, rfl⟩ := h.exists_eq
    rfl
  moved := by
    intro path s t point place _ h _
    obtain ⟨first, rfl⟩ := h.exists_eq
    exact ⟨rfl, rfl, rfl⟩
  written _ h point value := h.write _ point value

end Session.AnyFirst

/-! ## Two evaluators -/

namespace Evaluator

variable {rules : List Rule} {docs docs' : List Json} {id : String} {e : Evaluator}

/-- An evaluator that starts in a named document is made of a list in any order. -/
theorem new_perm (h : docs.Perm docs') (hnew : new rules docs (some id) = .ok e) :
    ∃ e', new rules docs' (some id) = .ok e' ∧ e'.rules = e.rules ∧
      Session.AnyFirst e.start e'.start := by
  obtain ⟨hrules, hown, hdocuments, hprimary⟩ := new_eq_ok.mp hnew
  obtain ⟨documents', hdocuments', htable⟩ := Documents.ofList_perm h hdocuments
  have hprimary' : primaryOf documents' (some id) = .ok e.primary := by
    have hcontains : documents'.contains id = e.documents.contains id := by
      rw [Documents.contains, htable]
      rfl
    rw [← hprimary, primaryOf, primaryOf, hcontains]
  refine ⟨⟨rules, e.primary, documents'⟩, new_eq_ok.mpr ⟨hrules, rfl, hdocuments', hprimary'⟩, ?_⟩
  exact ⟨hown.symm, rfl, htable⟩

/-- **The order of the documents makes no difference to runs that start in a named one.** An
evaluator is made of a list exactly if one is made of the list in another order. Whatever the rules,
the two then give the same value or fail with the same fault in every run, and leave the same
document under every name. -/
theorem runTimes_perm (h : docs.Perm docs') (rules : List Rule) (id : String) :
    ((∃ e, new rules docs (some id) = .ok e) ↔ ∃ e', new rules docs' (some id) = .ok e') ∧
    ∀ e e', new rules docs (some id) = .ok e → new rules docs' (some id) = .ok e' → ∀ runs,
      List.Forall₂ (fun step step' => step.1 = step'.1 ∧
          ∀ name, step'.2.documents.get? name = step.2.documents.get? name)
        (e.runTimes runs) (e'.runTimes runs) := by
  constructor
  · constructor
    · rintro ⟨e, hnew⟩
      obtain ⟨e', hnew', -⟩ := new_perm h hnew
      exact ⟨e', hnew'⟩
    · rintro ⟨e', hnew'⟩
      obtain ⟨e, hnew, -⟩ := new_perm h.symm hnew'
      exact ⟨e, hnew⟩
  · intro e e' hnew hnew' runs
    obtain ⟨made, hmade, hrules, hstart⟩ := new_perm h hnew
    rw [hmade] at hnew'
    cases hnew'
    have hruns := Session.AnyFirst.indistinguishable.runTimes hrules (Rule.allWithin_true e.rules)
      hstart runs
    refine hruns.imp fun step step' hstep => ⟨hstep.1, fun name => ?_⟩
    exact congrArg (List.lookup name) hstep.2.table

/-- A document with a name and one field. -/
def named (id : String) (value : Json) : Json :=
  .obj [("$id", .str id), ("f", value)]

/-- Passes the field on from the current document to `A`, and then from `C` to `B`. -/
def passOn : List Rule :=
  [.action (some "/f") (.set "A/f" none), .action (some "C/f") (.set "B/f" none)]

/-- Of two runs in `B`, the first brings `A` what `B` had and the second what `C` had, whether `A`
or `C` was given first. -/
theorem passOn_perm :
    let docs := [named "A" .null, named "B" (.bool true), named "C" (.bool false)]
    let docs' := [named "C" (.bool false), named "A" .null, named "B" (.bool true)]
    docs.Perm docs' ∧ ∃ e e', new passOn docs (some "B") = .ok e ∧
      new passOn docs' (some "B") = .ok e' ∧ e.documents.first = "A" ∧ e'.documents.first = "C" ∧
      e.run.2.documents.get? "A" = some (named "A" (.bool true)) ∧
      e.run.2.run.2.documents.get? "A" = some (named "A" (.bool false)) ∧
      List.Forall₂ (fun step step' => step.1 = step'.1 ∧
          ∀ name, step'.2.documents.get? name = step.2.documents.get? name)
        (e.runTimes 2) (e'.runTimes 2) := by
  intro docs docs'
  have hperm : docs.Perm docs' := ((List.Perm.swap _ _ _).cons _).trans (.swap _ _ _)
  have hnew : new passOn docs (some "B") = .ok ⟨passOn, "B", _⟩ := rfl
  have hnew' : new passOn docs' (some "B") = .ok ⟨passOn, "B", _⟩ := rfl
  refine ⟨hperm, _, _, hnew, hnew', rfl, rfl, rfl, rfl, ?_⟩
  exact (runTimes_perm hperm passOn "B").2 _ _ hnew hnew' 2

end Evaluator

end DocumentRules
