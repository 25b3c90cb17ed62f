import DocumentRules.Evaluation.Evaluator
import DocumentRules.Proofs.Result

/-!
# Sets of documents

A set of documents is made once, from a list, and what it holds can be said without the table that
it is kept in: a list is accepted if its documents have names, no two the same and none the reserved
one (`Documents.ofList_isOk_iff`), and under a name stands the document that has it
(`Documents.get?_ofList`). Neither depends on the order of the list. The order decides which
document is the first, and nothing else.
-/

set_option autoImplicit false

namespace DocumentRules

namespace Documents

/-- A name is there if a document is. -/
theorem contains_eq_isSome (documents : Documents) (id : String) :
    documents.contains id = (documents.get? id).isSome := rfl

theorem contains_of_get? {documents : Documents} {id : String} {doc : Json}
    (h : documents.get? id = some doc) : documents.contains id = true := by
  rw [contains_eq_isSome, h]
  rfl

/-! ## Gathering -/

section Gather

variable {doc : Json} {docs : List Json} {table table' : List (String × Json)} {id : String}

theorem gather_cons_eq_ok : gather (doc :: docs) table = .ok table' ↔
    ∃ id, idOf doc = .ok id ∧ id ≠ varsId ∧ Table.contains id table = false ∧
      gather docs (Table.put id doc table) = .ok table' := by
  rw [gather, bind_eq_ok]
  refine exists_congr fun id => and_congr_right fun _ => ?_
  by_cases hvars : id = varsId
  · simp [hvars]
  · cases hc : Table.contains id table <;> simp [hvars]

theorem contains_put_eq_false {other : String} :
    Table.contains other (Table.put id doc table) = false ↔
      other ≠ id ∧ Table.contains other table = false := by
  simp [Table.contains_put]

/-- When documents can be gathered: they have names, which are not taken and differ from each other.
-/
theorem gather_isOk_iff : ∀ {docs : List Json} {table : List (String × Json)},
    (∃ table', gather docs table = .ok table') ↔
      (∀ doc ∈ docs, ∃ id, idOf doc = .ok id ∧ id ≠ varsId ∧ Table.contains id table = false) ∧
        docs.Pairwise fun a b => idOf a ≠ idOf b := by
  intro docs
  induction docs with
  | nil =>
    intro table
    simp [gather]
  | cons doc rest ih =>
    intro table
    simp only [gather_cons_eq_ok, List.pairwise_cons, List.forall_mem_cons]
    constructor
    · rintro ⟨table', id, hid, hvars, hfree, hrest⟩
      obtain ⟨hnames, hpairs⟩ := ih.mp ⟨table', hrest⟩
      refine ⟨⟨⟨id, hid, hvars, hfree⟩, fun other hother => ?_⟩, fun other hother hsame => ?_,
        hpairs⟩
      · obtain ⟨id', hid', hvars', hfree'⟩ := hnames other hother
        exact ⟨id', hid', hvars', (contains_put_eq_false.mp hfree').2⟩
      · obtain ⟨id', hid', -, hfree'⟩ := hnames other hother
        rw [← hsame, hid] at hid'
        exact (contains_put_eq_false.mp hfree').1 (Except.ok.inj hid').symm
    · rintro ⟨⟨⟨id, hid, hvars, hfree⟩, hnames⟩, hfirst, hpairs⟩
      have hrest : ∀ other ∈ rest, ∃ id', idOf other = .ok id' ∧ id' ≠ varsId ∧
          Table.contains id' (Table.put id doc table) = false := by
        intro other hother
        obtain ⟨id', hid', hvars', hfree'⟩ := hnames other hother
        refine ⟨id', hid', hvars', contains_put_eq_false.mpr ⟨?_, hfree'⟩⟩
        rintro rfl
        exact hfirst other hother (hid.trans hid'.symm)
      obtain ⟨table', htable'⟩ := ih.mpr ⟨hrest, hpairs⟩
      exact ⟨table', id, hid, hvars, hfree, htable'⟩

/-- What stands in the table: what stood there, and every document under its name. -/
theorem lookup_gather : ∀ {docs : List Json} {table table' : List (String × Json)},
    gather docs table = .ok table' → ∀ {id : String} {doc : Json},
      table'.lookup id = some doc ↔
        (doc ∈ docs ∧ idOf doc = .ok id) ∨ table.lookup id = some doc := by
  intro docs
  induction docs with
  | nil =>
    intro table table' h id doc
    cases h
    simp
  | cons first rest ih =>
    intro table table' h id doc
    obtain ⟨name, hname, -, hfree, hrest⟩ := gather_cons_eq_ok.mp h
    rw [ih hrest, List.mem_cons]
    by_cases hid : id = name
    · subst hid
      have hnone : table.lookup id = none := by
        simpa [Table.contains] using hfree
      -- The name is that of the first document, and of no other one.
      rw [Table.lookup_put_self, hnone]
      constructor
      · rintro (⟨hmem, hdoc⟩ | hfirst)
        · exact .inl ⟨.inr hmem, hdoc⟩
        · cases hfirst
          exact .inl ⟨.inl rfl, hname⟩
      · rintro (⟨rfl | hmem, hdoc⟩ | hnothing)
        · exact .inr rfl
        · exact .inl ⟨hmem, hdoc⟩
        · cases hnothing
    · rw [Table.lookup_put_of_ne first table hid]
      constructor
      · rintro (⟨hmem, hdoc⟩ | hthere)
        · exact .inl ⟨.inr hmem, hdoc⟩
        · exact .inr hthere
      · rintro (⟨rfl | hmem, hdoc⟩ | hthere)
        · rw [hname] at hdoc
          exact absurd (Except.ok.inj hdoc).symm hid
        · exact .inl ⟨hmem, hdoc⟩
        · exact .inr hthere

end Gather

/-! ## Sets from lists -/

variable {docs : List Json} {documents : Documents}

theorem ofList_eq_ok : ofList docs = .ok documents ↔
    ∃ doc rest table, docs = doc :: rest ∧ gather docs [] = .ok table ∧
      idOf doc = .ok documents.first ∧ documents.table = Table.put varsId (.obj []) table := by
  cases docs with
  | nil => simp [ofList]
  | cons doc rest =>
    obtain ⟨first, entries⟩ := documents
    simp only [ofList, bind_eq_ok, pure_eq_ok, Documents.mk.injEq]
    constructor
    · rintro ⟨table, htable, id, hid, rfl, rfl⟩
      exact ⟨doc, rest, table, rfl, htable, hid, rfl⟩
    · rintro ⟨_, _, table, hdocs, htable, hid, rfl⟩
      cases hdocs
      exact ⟨table, htable, first, hid, rfl, rfl⟩

/-- **Which lists are accepted**: those with a document, all with names of their own. -/
theorem ofList_isOk_iff : (∃ documents, ofList docs = .ok documents) ↔
    docs ≠ [] ∧ (∀ doc ∈ docs, ∃ id, idOf doc = .ok id ∧ id ≠ varsId) ∧
      docs.Pairwise fun a b => idOf a ≠ idOf b := by
  have hgather : (∃ table, gather docs [] = .ok table) ↔ _ := gather_isOk_iff
  simp only [Table.contains, List.lookup_nil, Option.isSome_none, and_true] at hgather
  rw [← hgather]
  constructor
  · rintro ⟨documents, h⟩
    obtain ⟨doc, rest, table, rfl, htable, -⟩ := ofList_eq_ok.mp h
    exact ⟨List.cons_ne_nil doc rest, table, htable⟩
  · rintro ⟨hdocs, table, htable⟩
    obtain ⟨doc, rest, rfl⟩ := List.exists_cons_of_ne_nil hdocs
    obtain ⟨id, hid, -⟩ := gather_cons_eq_ok.mp htable
    exact ⟨⟨id, Table.put varsId (.obj []) table⟩,
      ofList_eq_ok.mpr ⟨doc, rest, table, rfl, htable, hid, rfl⟩⟩

/-- **What stands under a name**: the document that has it, or the one that is always there. -/
theorem get?_ofList (h : ofList docs = .ok documents) {id : String} {doc : Json} :
    documents.get? id = some doc ↔
      (doc ∈ docs ∧ idOf doc = .ok id) ∨ id = varsId ∧ doc = .obj [] := by
  obtain ⟨-, hnames, -⟩ := ofList_isOk_iff.mp ⟨documents, h⟩
  obtain ⟨_, _, table, -, htable, -, hput⟩ := ofList_eq_ok.mp h
  have hvars : ¬ (doc ∈ docs ∧ idOf doc = .ok varsId) := by
    rintro ⟨hmem, hdoc⟩
    obtain ⟨id, hid, hne⟩ := hnames doc hmem
    rw [hid] at hdoc
    exact hne (Except.ok.inj hdoc)
  rw [get?, hput]
  by_cases hid : id = varsId
  · subst hid
    rw [Table.lookup_put_self, or_iff_right hvars, and_iff_right rfl, Option.some.injEq]
    exact eq_comm
  · rw [Table.lookup_put_of_ne _ table hid, lookup_gather htable]
    simp [hid]

theorem contains_first (h : ofList docs = .ok documents) :
    documents.contains documents.first = true := by
  obtain ⟨doc, rest, _, hdocs, -, hfirst, -⟩ := ofList_eq_ok.mp h
  have hmem : doc ∈ docs := by
    rw [hdocs]
    exact List.mem_cons_self
  exact contains_of_get? ((get?_ofList h).mpr (.inl ⟨hmem, hfirst⟩))

/-! ## Names in documents -/

/-- A document names itself if it is an object with a text in its field `$id`. -/
def NamesItself (doc : Json) (id : String) : Prop :=
  ∃ fields, doc = .obj fields ∧ fields.lookup "$id" = some (.str id)

theorem idOf_eq_ok {doc : Json} {id : String} : idOf doc = .ok id ↔ NamesItself doc id := by
  constructor
  · intro h
    cases doc with
    | obj fields =>
      unfold idOf at h
      dsimp only at h
      split at h
      · next id' hlookup =>
        rw [Except.ok.injEq] at h
        exact ⟨fields, rfl, h ▸ hlookup⟩
      · cases h
      · cases h
    | _ => cases h
  · rintro ⟨fields, rfl, hlookup⟩
    have hid : fields.lookup idField = some (.str id) := hlookup
    simp only [idOf, hid]

/-- Which lists are accepted, said of the documents themselves. -/
theorem ofList_isOk_iff_names : (∃ documents, ofList docs = .ok documents) ↔
    docs ≠ [] ∧ (∀ doc ∈ docs, ∃ id, NamesItself doc id ∧ id ≠ "$vars") ∧
      docs.Pairwise fun a b => ∀ id, NamesItself a id → ¬ NamesItself b id := by
  rw [ofList_isOk_iff]
  simp only [idOf_eq_ok]
  refine and_congr_right fun _ => and_congr_right fun hnames => List.Pairwise.iff_of_mem ?_
  intro a b ha _
  constructor
  · intro hne id ha hb
    exact hne ((idOf_eq_ok.mpr ha).trans (idOf_eq_ok.mpr hb).symm)
  · intro hdistinct hsame
    obtain ⟨id, hid, -⟩ := hnames a ha
    exact hdistinct id hid (idOf_eq_ok.mp (hsame.symm.trans (idOf_eq_ok.mpr hid)))

/-- The names in a set: those of the documents, and the reserved one. -/
theorem mem_keys_ofList (h : ofList docs = .ok documents) {id : String} :
    id ∈ Table.keys documents.table ↔ id = "$vars" ∨ ∃ doc ∈ docs, NamesItself doc id := by
  have hcontains : id ∈ Table.keys documents.table ↔ ∃ doc, documents.get? id = some doc := by
    rw [Table.mem_keys_iff]
    exact Option.isSome_iff_exists
  rw [hcontains]
  constructor
  · rintro ⟨doc, hdoc⟩
    rcases (get?_ofList h).mp hdoc with ⟨hmem, hid⟩ | ⟨rfl, -⟩
    · exact .inr ⟨doc, hmem, idOf_eq_ok.mp hid⟩
    · exact .inl rfl
  · rintro (rfl | ⟨doc, hmem, hid⟩)
    · exact ⟨.obj [], (get?_ofList h).mpr (.inr ⟨rfl, rfl⟩)⟩
    · exact ⟨doc, (get?_ofList h).mpr (.inl ⟨hmem, idOf_eq_ok.mpr hid⟩)⟩

end Documents

/-! ## Evaluators -/

namespace Evaluator

variable {rules : List Rule} {docs : List Json} {primary : Option String} {evaluator : Evaluator}

theorem new_eq_ok : new rules docs primary = .ok evaluator ↔
    rules ≠ [] ∧ evaluator.rules = rules ∧ Documents.ofList docs = .ok evaluator.documents ∧
      primaryOf evaluator.documents primary = .ok evaluator.primary := by
  obtain ⟨rules', id, documents⟩ := evaluator
  cases rules with
  | nil => simp [new]
  | cons rule rest =>
    simp only [new, bind_eq_ok, pure_eq_ok, Evaluator.mk.injEq]
    constructor
    · rintro ⟨_, hdocuments, _, hprimary, rfl, rfl, rfl⟩
      exact ⟨List.cons_ne_nil _ _, rfl, hdocuments, hprimary⟩
    · rintro ⟨-, rfl, hdocuments, hprimary⟩
      exact ⟨documents, hdocuments, id, hprimary, rfl, rfl, rfl⟩

/-- The document that runs start in is there. -/
theorem contains_primary (h : new rules docs primary = .ok evaluator) :
    evaluator.documents.contains evaluator.primary = true := by
  obtain ⟨-, -, hdocuments, hprimary⟩ := new_eq_ok.mp h
  cases primary with
  | none =>
    rw [← Except.ok.inj hprimary]
    exact Documents.contains_first hdocuments
  | some id =>
    unfold primaryOf at hprimary
    dsimp only at hprimary
    split at hprimary
    · next hcontains =>
      rw [← Except.ok.inj hprimary]
      exact hcontains
    · cases hprimary

end Evaluator

end DocumentRules
