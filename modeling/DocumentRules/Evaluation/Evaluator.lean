import DocumentRules.Evaluation.Cascade

/-!
# Evaluators

An evaluator holds rules and the documents they run over, and may run more than once. Every run
starts in the primary document with nothing in hand, but the documents are those that the run before
it left, whether it succeeded or failed.
-/

set_option autoImplicit false

namespace DocumentRules

/-- Rules with the documents they run over. -/
structure Evaluator where
  rules : List Rule
  primary : String
  documents : Documents

namespace Evaluator

/-- The document that runs start in: the one named, which must be there, or the first. -/
def primaryOf (documents : Documents) : Option String → Except Fault String
  | none => .ok documents.first
  | some id =>
    if documents.contains id then .ok id else .error (.structural (.unknownPrimary id))

/-- An evaluator of at least one rule over at least one document. -/
def new (rules : List Rule) (documents : List Json) (primary : Option String) :
    Except Fault Evaluator :=
  match rules with
  | [] => .error (.structural .noRules)
  | _ => do
    let documents ← Documents.ofList documents
    let primary ← primaryOf documents primary
    return ⟨rules, primary, documents⟩

/-- One run. The documents of the evaluator afterwards are those that the run left. -/
def run (evaluator : Evaluator) : Except Fault Value × Evaluator :=
  let start : Session := ⟨evaluator.documents, evaluator.primary⟩
  let (result, session) := (Rule.runAll evaluator.rules ⟨.undefined, none⟩).run.run start
  (result, { evaluator with documents := session.documents })

/-- Several runs, one after another. -/
def runTimes : Nat → Evaluator → List (Except Fault Value × Evaluator)
  | 0, _ => []
  | runs + 1, evaluator =>
    let step := evaluator.run
    step :: runTimes runs step.2

/-- Runs rules over documents once and gives the last value. -/
def runOnce (rules : List Rule) (documents : List Json) (primary : Option String) :
    Except Fault Value := do
  let evaluator ← new rules documents primary
  evaluator.run.1

end Evaluator

end DocumentRules
