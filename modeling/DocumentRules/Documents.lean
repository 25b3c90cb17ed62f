import DocumentRules.Fault

/-!
# The documents of an evaluation

Rules run over a set of documents. Each is an object that names itself in its field `$id`, and one
more is always there, empty at first, for rules to write their own values to. Its name is reserved.

The set is a table by name and remembers which document was given first, since rules start in that
one unless told otherwise. A document keeps its place in the table even if a write replaces all of
it, its own `$id` included: names are read once, when the set is made.
-/

set_option autoImplicit false

namespace DocumentRules

/-- The field in which a document names itself. -/
def idField : String := "$id"

/-- The name of the document that is always there. -/
def varsId : String := "$vars"

/-- Documents by name. -/
structure Documents where
  /-- The name of the document given first. -/
  first : String
  /-- The documents, in the order of their names. -/
  table : List (String × Json)

namespace Documents

/-- The name that a document gives itself. -/
def idOf : Json → Except Fault String
  | .obj fields =>
    match fields.lookup idField with
    | some (.str id) => .ok id
    | some other => .error (.structural (.idNotText other))
    | none => .error (.structural .idMissing)
  | other => .error (.structural (.documentNotObject other))

/-- Adds documents to a table, each under its own name. -/
def gather : List Json → List (String × Json) → Except Fault (List (String × Json))
  | [], table => .ok table
  | doc :: rest, table => do
    let id ← idOf doc
    if id = varsId then .error (.structural .idReserved)
    else if Table.contains id table then .error (.structural (.idDuplicate id))
    else gather rest (Table.put id doc table)

/-- The set of the given documents and the one that is always there. At least one must be given,
and all must have names of their own. -/
def ofList : List Json → Except Fault Documents
  | [] => .error (.structural .noDocuments)
  | doc :: rest => do
    let table ← gather (doc :: rest) []
    let first ← idOf doc
    return ⟨first, Table.put varsId (.obj []) table⟩

/-- Whether there is a document of that name. -/
def contains (documents : Documents) (id : String) : Bool :=
  Table.contains id documents.table

/-- The document of that name. -/
def get? (documents : Documents) (id : String) : Option Json :=
  documents.table.lookup id

/-- The set with another document under a name. -/
def put (documents : Documents) (id : String) (doc : Json) : Documents :=
  { documents with table := Table.put id doc documents.table }

end Documents

end DocumentRules
