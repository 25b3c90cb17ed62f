import DocumentRules.Condition.Basic
import DocumentRules.Condition.Meaning
import DocumentRules.Condition.Parser
import DocumentRules.Condition.Verdict
import DocumentRules.Decimal.Binary
import DocumentRules.Decimal.Layout
import DocumentRules.Decimal.Numeral
import DocumentRules.Decimal.Shortest
import DocumentRules.Documents
import DocumentRules.Evaluation.Aggregate
import DocumentRules.Evaluation.Cascade
import DocumentRules.Evaluation.Evaluator
import DocumentRules.Evaluation.Operation
import DocumentRules.Evaluation.Session
import DocumentRules.Evaluation.Slice
import DocumentRules.Evaluation.Sort
import DocumentRules.Fault
import DocumentRules.Json.Basic
import DocumentRules.Json.Number
import DocumentRules.Json.Printer
import DocumentRules.Json.Reader
import DocumentRules.Operator
import DocumentRules.Pointer.Access
import DocumentRules.Pointer.Edit
import DocumentRules.Pointer.Path
import DocumentRules.Pointer.Point
import DocumentRules.Proofs.Condition.Casting
import DocumentRules.Proofs.Condition.Flattening
import DocumentRules.Proofs.Condition.Meaning
import DocumentRules.Proofs.Condition.Negation
import DocumentRules.Proofs.Condition.RoundTrip
import DocumentRules.Proofs.Decimal.Characters
import DocumentRules.Proofs.Decimal.Digits
import DocumentRules.Proofs.Decimal.Integers
import DocumentRules.Proofs.Decimal.Interval
import DocumentRules.Proofs.Decimal.Literal
import DocumentRules.Proofs.Decimal.Nearest
import DocumentRules.Proofs.Decimal.NumericText
import DocumentRules.Proofs.Decimal.Packing
import DocumentRules.Proofs.Decimal.Printed
import DocumentRules.Proofs.Decimal.Rank
import DocumentRules.Proofs.Decimal.Reading
import DocumentRules.Proofs.Decimal.Rounding
import DocumentRules.Proofs.Decimal.Values
import DocumentRules.Proofs.Decimal.Worth
import DocumentRules.Proofs.Documents
import DocumentRules.Proofs.Evaluation.Agreement
import DocumentRules.Proofs.Evaluation.Blind
import DocumentRules.Proofs.Evaluation.Bystander
import DocumentRules.Proofs.Evaluation.Commonest
import DocumentRules.Proofs.Evaluation.Current
import DocumentRules.Proofs.Evaluation.Definite
import DocumentRules.Proofs.Evaluation.Elements
import DocumentRules.Proofs.Evaluation.Extremes
import DocumentRules.Proofs.Evaluation.Failure
import DocumentRules.Proofs.Evaluation.Frame
import DocumentRules.Proofs.Evaluation.Fusion
import DocumentRules.Proofs.Evaluation.Group
import DocumentRules.Proofs.Evaluation.History
import DocumentRules.Proofs.Evaluation.Home
import DocumentRules.Proofs.Evaluation.Indices
import DocumentRules.Proofs.Evaluation.Indistinguishable
import DocumentRules.Proofs.Evaluation.Insertion
import DocumentRules.Proofs.Evaluation.Invariant
import DocumentRules.Proofs.Evaluation.Mirror
import DocumentRules.Proofs.Evaluation.Names
import DocumentRules.Proofs.Evaluation.Opening
import DocumentRules.Proofs.Evaluation.Operators
import DocumentRules.Proofs.Evaluation.Parts
import DocumentRules.Proofs.Evaluation.Permuted
import DocumentRules.Proofs.Evaluation.ReadBack
import DocumentRules.Proofs.Evaluation.Sessions
import DocumentRules.Proofs.Evaluation.Sorting
import DocumentRules.Proofs.Evaluation.Split
import DocumentRules.Proofs.Evaluation.Step
import DocumentRules.Proofs.Evaluation.Trace
import DocumentRules.Proofs.Evaluation.Visibility
import DocumentRules.Proofs.Evaluation.Writing
import DocumentRules.Proofs.Json.Delimited
import DocumentRules.Proofs.Json.Ordered
import DocumentRules.Proofs.Json.Render
import DocumentRules.Proofs.Operator
import DocumentRules.Proofs.Pointer.Carried
import DocumentRules.Proofs.Pointer.Commuting
import DocumentRules.Proofs.Pointer.Decoding
import DocumentRules.Proofs.Pointer.Index
import DocumentRules.Proofs.Pointer.Lens
import DocumentRules.Proofs.Pointer.Overwrite
import DocumentRules.Proofs.Pointer.Positions
import DocumentRules.Proofs.Pointer.Reachable
import DocumentRules.Proofs.Pointer.Refusal
import DocumentRules.Proofs.Pointer.Resolving
import DocumentRules.Proofs.Pointer.RoundTrip
import DocumentRules.Proofs.Pointer.Segments
import DocumentRules.Proofs.Pointer.Spelling
import DocumentRules.Proofs.Result
import DocumentRules.Proofs.Rule.RoundTrip
import DocumentRules.Proofs.Value.Comparisons
import DocumentRules.Proofs.Value.Equality
import DocumentRules.Proofs.Value.Exclusion
import DocumentRules.Proofs.Value.Joining
import DocumentRules.Proofs.Value.Order
import DocumentRules.Proofs.Value.Recast
import DocumentRules.Rule.Basic
import DocumentRules.Rule.Parser
import DocumentRules.Rule.Printer
import DocumentRules.Table
import DocumentRules.Value.Arithmetic
import DocumentRules.Value.Basic
import DocumentRules.Value.Equality
import DocumentRules.Value.Order
import DocumentRules.Value.Text
