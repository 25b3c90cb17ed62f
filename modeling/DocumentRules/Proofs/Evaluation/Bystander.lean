import DocumentRules.Proofs.Documents
import DocumentRules.Proofs.Evaluation.Indistinguishable
import DocumentRules.Proofs.Evaluation.Opening
import Mathlib.Tactic.Tauto

/-!
# Documents that no rule asks for

A document takes a name away from paths: one that opens with this name leads into the document,
where before it led on from a point. So a document more can change what rules do that were written
without it. It can do so through openings only. If no path of the rules opens with its name, it is a
*bystander*: the rules give what they gave before, fail where they failed before, leave all other
documents as they left them before, and never touch the new one (`Evaluator.runTimes_beside`).

The proof compares the run without the document and the run with it. A path asks for its opening and
for the current document (`Session.locate_congr_of_opening`). The bystander is not the first, and it
never is the second either, since a run starts elsewhere and goes where its paths lead.
-/

set_option autoImplicit false

namespace DocumentRules

/-! ## One document more -/

/-- The same documents and one more, of another name. -/
structure Documents.Beside (x : String) (bystander : Json) (documents documents' : Documents) :
    Prop where
  others : ∀ id, id ≠ x → documents'.get? id = documents.get? id
  bystander : documents'.get? x = some bystander

namespace Documents.Beside

variable {x : String} {bystander : Json} {documents documents' : Documents}

theorem contains_eq (h : Beside x bystander documents documents') {id : String} (hid : id ≠ x) :
    documents'.contains id = documents.contains id := by
  rw [contains_eq_isSome, contains_eq_isSome, h.others id hid]

/-- Both take a document under a name that is not the bystander's. -/
theorem put (h : Beside x bystander documents documents') {id : String} (hid : id ≠ x)
    (doc : Json) : Beside x bystander (documents.put id doc) (documents'.put id doc) where
  others other hother := by
    simp only [get?, Documents.put]
    by_cases hsame : other = id
    · rw [hsame, Table.lookup_put_self, Table.lookup_put_self]
    · rw [Table.lookup_put_of_ne _ _ hsame, Table.lookup_put_of_ne _ _ hsame]
      exact h.others other hother
  bystander := by
    simp only [get?, Documents.put]
    rw [Table.lookup_put_of_ne _ _ hid.symm]
    exact h.bystander

end Documents.Beside

namespace Documents

variable {x : String} {bystander : Json} {front back : List Json} {documents documents' : Documents}

/-- A list is accepted with the bystander if it is without it and the name is free. -/
theorem ofList_isOk_insert (h : ofList (front ++ back) = .ok documents)
    (hid : idOf bystander = .ok x) (hvars : x ≠ varsId)
    (hfree : ∀ doc ∈ front ++ back, idOf doc ≠ .ok x) :
    ∃ documents', ofList (front ++ bystander :: back) = .ok documents' := by
  obtain ⟨-, hnames, hpairs⟩ := ofList_isOk_iff.mp ⟨documents, h⟩
  have hsymm : ∀ {a b : Json}, idOf a ≠ idOf b → idOf b ≠ idOf a := Ne.symm
  refine ofList_isOk_iff.mpr ⟨by simp, fun doc hdoc => ?_, ?_⟩
  · rcases List.mem_cons.mp (List.perm_middle.mem_iff.mp hdoc) with rfl | hdoc
    · exact ⟨x, hid, hvars⟩
    · exact hnames doc hdoc
  · rw [List.perm_middle.pairwise_iff hsymm, List.pairwise_cons]
    refine ⟨fun doc hdoc => ?_, hpairs⟩
    rw [hid]
    exact (hfree doc hdoc).symm

/-- The order of the lists decides nothing about what they hold. -/
theorem Beside.of_ofList (h : ofList (front ++ back) = .ok documents)
    (h' : ofList (front ++ bystander :: back) = .ok documents')
    (hid : idOf bystander = .ok x) : Beside x bystander documents documents' where
  others id hne := by
    have hbystander : ∀ doc, doc = bystander → idOf doc ≠ .ok id := by
      rintro _ rfl hsame
      rw [hid] at hsame
      exact hne (Except.ok.inj hsame).symm
    refine Option.ext fun doc => ?_
    rw [get?_ofList h, get?_ofList h', List.perm_middle.mem_iff, List.mem_cons]
    have := hbystander doc
    tauto
  bystander := by
    refine (get?_ofList h').mpr (.inl ⟨?_, hid⟩)
    exact List.mem_append_right front List.mem_cons_self

end Documents

/-- Sessions over documents without and with the bystander, in a document that is not it. -/
structure Session.Beside (x : String) (bystander : Json) (s t : Session) : Prop where
  current : t.current = s.current
  elsewhere : s.current ≠ x
  documents : Documents.Beside x bystander s.documents t.documents

namespace Session.Beside

variable {x : String} {bystander : Json} {s t : Session} {path : String}

/-- A path leads to the same point in both, -/
theorem follow_eq (h : Beside x bystander s t) (hpath : Pointer.opening? path ≠ some x)
    (trail : List Point) : s.follow path trail = t.follow path trail := by
  have hopening : ∀ id, Pointer.opening? path = some id →
      s.documents.contains id = t.documents.contains id := by
    intro id hid
    exact (h.documents.contains_eq fun hx => hpath (hx ▸ hid)).symm
  exact follow_congr_of_opening h.current.symm (h.documents.contains_eq h.elsewhere).symm hopening
    trail

theorem locate_eq (h : Beside x bystander s t) (hpath : Pointer.opening? path ≠ some x)
    (point : Option Point) : s.locate path point = t.locate path point := by
  simp only [locate, h.follow_eq hpath]

/-- which is not in the bystander, -/
theorem destination_ne (h : Beside x bystander s t) (hpath : Pointer.opening? path ≠ some x) :
    s.destination path ≠ x := by
  unfold destination
  cases hnamed : (Pointer.opening? path).filter s.documents.contains with
  | none => exact h.elsewhere
  | some id =>
    rw [Option.filter_eq_some_iff] at hnamed
    rintro rfl
    exact hpath hnamed.1

/-- so that the same is read there, -/
theorem valueAt_eq (h : Beside x bystander s t) {place : Place} (hplace : place.document ≠ x) :
    s.valueAt place = t.valueAt place := by
  simp only [valueAt, read, h.documents.others _ hplace]

/-- and the same written. -/
theorem write (h : Beside x bystander s t) (hpath : Pointer.opening? path ≠ some x)
    (point : Point) (value : Json) :
    Alike (Beside x bystander) (s.write path point value) (t.write path point value) := by
  unfold Session.write
  refine (Alike.rfl (fun _ => rfl) _).bind fun trail _ htrail => ?_
  subst htrail
  rw [← h.follow_eq hpath trail]
  cases hplace : s.follow path trail with
  | error fault => exact .error _
  | ok place =>
    obtain ⟨document, target⟩ := place
    have hne : document ≠ x := by
      rw [document_of_follow hplace]
      exact h.destination_ne hpath
    simp only [mapError_ok, bind, Except.bind, h.documents.others document hne]
    cases s.documents.get? document with
    | none => exact .error _
    | some doc =>
      refine (Alike.rfl (fun _ => rfl) _).bind fun written _ hwritten => ?_
      subst hwritten
      exact .ok ⟨h.current, h.elsewhere, h.documents.put hne _⟩

end Session.Beside

/-- **Paths that do not open with the name of the bystander do not tell whether it is there.** -/
theorem Session.Beside.indistinguishable (x : String) (bystander : Json) :
    Session.Indistinguishable (Session.Beside x bystander)
      (fun path => Pointer.opening? path ≠ some x)
      (fun path => Pointer.opening? path ≠ some x) where
  restored h h' := ⟨h.current, h.elsewhere, h'.documents⟩
  located hpath h point := h.locate_eq hpath point
  moved := by
    intro path s t point place hpath h hplace
    obtain ⟨trail, above, -, hfollow, -⟩ := Session.locate_eq_ok.mp hplace
    have hne : place.document ≠ x := by
      rw [Session.document_of_follow hfollow]
      exact h.destination_ne hpath
    exact ⟨h.valueAt_eq hne, rfl, hne, h.documents⟩
  written hpath h point value := h.write hpath point value

/-! ## Two evaluators -/

namespace Evaluator

/-- Evaluators of the same rules, which do not open with the name of the bystander. -/
structure Beside (x : String) (bystander : Json) (e e' : Evaluator) : Prop where
  rules : e'.rules = e.rules
  paths : Rule.AllWithin (fun path => Pointer.opening? path ≠ some x)
    (fun path => Pointer.opening? path ≠ some x) e.rules
  start : Session.Beside x bystander e.start e'.start

variable {x : String} {bystander : Json}

theorem Beside.run {e e' : Evaluator} (h : Beside x bystander e e') :
    (e.run.1 = e'.run.1 ∧ Documents.Beside x bystander e.run.2.documents e'.run.2.documents) ∧
      Beside x bystander e.run.2 e'.run.2 := by
  have law := Session.Beside.indistinguishable x bystander
  obtain ⟨hresult, hnext⟩ := law.run h.rules h.paths h.start
  exact ⟨⟨hresult, hnext.documents⟩, h.rules, h.paths, hnext⟩

/-- **A document that no rule asks for makes no difference.** Wherever in the list it stands, the
evaluator is made if it was made without it, and if no path of the rules opens with its name, then
runs that start in the same document give the same results or faults in both evaluators, leave the
other documents alike, and leave the new one as it was. -/
theorem runTimes_beside {rules : List Rule} {front back : List Json} {primary : Option String}
    {e : Evaluator} {x : String} {bystander : Json}
    (hnew : Evaluator.new rules (front ++ back) primary = .ok e)
    (hid : Documents.idOf bystander = .ok x) (hvars : x ≠ varsId)
    (hfree : ∀ doc ∈ front ++ back, Documents.idOf doc ≠ .ok x)
    (hpaths : Rule.AllWithin (fun path => Pointer.opening? path ≠ some x)
      (fun path => Pointer.opening? path ≠ some x) rules) :
    (∃ e', Evaluator.new rules (front ++ bystander :: back) (some e.primary) = .ok e') ∧
    ∀ primary' e', Evaluator.new rules (front ++ bystander :: back) primary' = .ok e' →
      e'.primary = e.primary → ∀ runs,
        List.Forall₂ (fun step step' => step.1 = step'.1 ∧
            (∀ id, id ≠ x → step'.2.documents.get? id = step.2.documents.get? id) ∧
            step'.2.documents.get? x = some bystander)
          (e.runTimes runs) (e'.runTimes runs) := by
  obtain ⟨hrules, hown, hdocuments, -⟩ := Evaluator.new_eq_ok.mp hnew
  have hprimary := Evaluator.contains_primary hnew
  have helsewhere : e.primary ≠ x := by
    rintro rfl
    obtain ⟨doc, hdoc⟩ := Option.isSome_iff_exists.mp hprimary
    rcases (Documents.get?_ofList hdocuments).mp hdoc with ⟨hmem, hname⟩ | ⟨hname, -⟩
    · exact hfree doc hmem hname
    · exact hvars hname
  constructor
  · obtain ⟨documents', hdocuments'⟩ :=
      Documents.ofList_isOk_insert hdocuments hid hvars hfree
    have hbeside := Documents.Beside.of_ofList hdocuments hdocuments' hid
    refine ⟨⟨rules, e.primary, documents'⟩, new_eq_ok.mpr ⟨hrules, rfl, hdocuments', ?_⟩⟩
    rw [primaryOf, hbeside.contains_eq helsewhere, if_pos hprimary]
  · intro primary' e' hnew' hsame runs
    obtain ⟨-, hown', hdocuments', -⟩ := Evaluator.new_eq_ok.mp hnew'
    have hbeside : Beside x bystander e e' :=
      ⟨hown'.trans hown.symm, hown.symm ▸ hpaths, hsame, helsewhere,
        .of_ofList hdocuments hdocuments' hid⟩
    refine forall₂_runTimes (P := Beside x bystander) (fun d d' h => ?_) runs e e' hbeside
    obtain ⟨⟨hresult, hdocs⟩, hnext⟩ := h.run
    exact ⟨⟨hresult, hdocs.others, hdocs.bystander⟩, hnext⟩

/-- Goes to an object with a field `B`, and reads the field and writes beside it. -/
def besideField : List Rule :=
  [.path "A/o", .action (some "/B") (.set "../C" none)]

/-- The document with that object. -/
def withField : Json :=
  .obj [("$id", .str "A"), ("o", .obj [("B", .ofInt 1)])]

/-- A document with the name of that field. -/
def namedAsField : Json :=
  .obj [("$id", .str "B")]

theorem besideField_beside :
    (∀ doc ∈ [] ++ [withField], Documents.idOf doc ≠ .ok "B") ∧
    ∃ e e', Evaluator.new besideField ([] ++ [withField]) none = .ok e ∧
      Evaluator.new besideField ([] ++ namedAsField :: [withField]) (some "A") = .ok e' ∧
      e.run.2.documents.get? "A" =
        some (.obj [("$id", .str "A"), ("o", .obj [("B", .ofInt 1), ("C", .ofInt 1)])]) ∧
      List.Forall₂ (fun step step' => step.1 = step'.1 ∧
          (∀ id, id ≠ "B" → step'.2.documents.get? id = step.2.documents.get? id) ∧
          step'.2.documents.get? "B" = some namedAsField)
        (e.runTimes 2) (e'.runTimes 2) := by
  have hfree : ∀ doc ∈ [] ++ [withField], Documents.idOf doc ≠ .ok "B" := by
    intro doc hdoc
    rw [List.mem_singleton.mp hdoc]
    show Except.ok "A" ≠ Except.ok "B"
    simp
  have hpaths : Rule.AllWithin (fun path => Pointer.opening? path ≠ some "B")
      (fun path => Pointer.opening? path ≠ some "B") besideField := by
    have hread : Pointer.opening? "A/o" ≠ some "B" := by decide +kernel
    have hfield : Pointer.opening? "/B" ≠ some "B" := by decide +kernel
    have hwritten : Pointer.opening? "../C" ≠ some "B" := by decide +kernel
    refine ⟨hread, ⟨fun path hpath => ?_, hwritten⟩, trivial⟩
    rw [← Option.some.inj hpath]
    exact hfield
  have hid : Documents.idOf namedAsField = .ok "B" := rfl
  have hnew : Evaluator.new besideField ([] ++ [withField]) none = .ok ⟨besideField, "A", _⟩ := rfl
  refine ⟨hfree, _, _, hnew, rfl, rfl, ?_⟩
  exact (runTimes_beside hnew hid (by decide) hfree hpaths).2 (some "A") _ rfl rfl 2

end Evaluator

end DocumentRules
