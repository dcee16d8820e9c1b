import RuleAggregate.Aggregate.Accumulator
import RuleAggregate.Aggregate.Builtin
import RuleAggregate.Aggregate.Compiler
import RuleAggregate.Aggregate.Function
import RuleAggregate.Aggregate.Ledger
import RuleAggregate.Aggregate.Registry
import RuleAggregate.Clause.Basic
import RuleAggregate.Clause.Build
import RuleAggregate.Clause.Context
import RuleAggregate.Code.Analysis
import RuleAggregate.Code.Balance
import RuleAggregate.Code.Hoist
import RuleAggregate.Code.Lexer
import RuleAggregate.Code.Locals
import RuleAggregate.Code.Token
import RuleAggregate.Decimal.Format
import RuleAggregate.Decimal.Integer
import RuleAggregate.Decimal.Reading
import RuleAggregate.Decimal.Shortest
import RuleAggregate.Json.Number
import RuleAggregate.Json.Reader
import RuleAggregate.Json.Writer
import RuleAggregate.Node.Basic
import RuleAggregate.Node.Debug
import RuleAggregate.Node.Memory
import RuleAggregate.OrderedMap
import RuleAggregate.Outcome
import RuleAggregate.Path.Basic
import RuleAggregate.Path.Compiler
import RuleAggregate.Proofs.Aggregate.Collecting
import RuleAggregate.Proofs.Aggregate.Exact
import RuleAggregate.Proofs.Aggregate.Extremes
import RuleAggregate.Proofs.Aggregate.Folding
import RuleAggregate.Proofs.Aggregate.InPlace
import RuleAggregate.Proofs.Aggregate.Readable
import RuleAggregate.Proofs.Aggregate.Reordering
import RuleAggregate.Proofs.Clause.Arguments
import RuleAggregate.Proofs.Clause.Attributes
import RuleAggregate.Proofs.Clause.Bindings
import RuleAggregate.Proofs.Clause.Builtins
import RuleAggregate.Proofs.Clause.Calls
import RuleAggregate.Proofs.Clause.Diagnostics
import RuleAggregate.Proofs.Clause.Names
import RuleAggregate.Proofs.Clause.Reading
import RuleAggregate.Proofs.Clause.Required
import RuleAggregate.Proofs.Clause.Results
import RuleAggregate.Proofs.Clause.Sequence
import RuleAggregate.Proofs.Clause.Steps
import RuleAggregate.Proofs.Clause.UnitNames
import RuleAggregate.Proofs.Code.Assignments
import RuleAggregate.Proofs.Code.Comments
import RuleAggregate.Proofs.Code.Cutting
import RuleAggregate.Proofs.Code.Declarations
import RuleAggregate.Proofs.Code.Hoisting
import RuleAggregate.Proofs.Code.Maximal
import RuleAggregate.Proofs.Code.Mentions
import RuleAggregate.Proofs.Code.Munching
import RuleAggregate.Proofs.Code.Nesting
import RuleAggregate.Proofs.Code.Ranges
import RuleAggregate.Proofs.Code.Reports
import RuleAggregate.Proofs.Code.Splitting
import RuleAggregate.Proofs.Code.Stretches
import RuleAggregate.Proofs.Code.Tiling
import RuleAggregate.Proofs.Decimal.Digits
import RuleAggregate.Proofs.Decimal.Numerals
import RuleAggregate.Proofs.Json.Members
import RuleAggregate.Proofs.Json.RoundTrip
import RuleAggregate.Proofs.Json.Tokens
import RuleAggregate.Proofs.Node.Agreement
import RuleAggregate.Proofs.Node.Contents
import RuleAggregate.Proofs.Node.Contexts
import RuleAggregate.Proofs.Node.Failure
import RuleAggregate.Proofs.Node.Handles
import RuleAggregate.Proofs.Node.Lawful
import RuleAggregate.Proofs.Node.Reachable
import RuleAggregate.Proofs.Node.Recompute
import RuleAggregate.Proofs.Node.Retraction
import RuleAggregate.Proofs.Node.Run
import RuleAggregate.Proofs.Node.Tracking
import RuleAggregate.Proofs.Path.Evaluation
import RuleAggregate.Proofs.Path.Mentions
import RuleAggregate.Proofs.Path.Spelling
import RuleAggregate.Proofs.Path.Writing
import RuleAggregate.Proofs.Scope.FirstMentions
import RuleAggregate.Proofs.Scope.Keyed
import RuleAggregate.Proofs.Scope.References
import RuleAggregate.Proofs.Source.Building
import RuleAggregate.Proofs.Source.Numbering
import RuleAggregate.Proofs.Source.Wrapping
import RuleAggregate.Proofs.Text.Blanks
import RuleAggregate.Proofs.Text.Boundaries
import RuleAggregate.Proofs.Text.Longest
import RuleAggregate.Proofs.Text.Shapes
import RuleAggregate.Proofs.Value.Comparison
import RuleAggregate.Proofs.Value.Equality
import RuleAggregate.Proofs.Value.Equivalence
import RuleAggregate.Proofs.Value.ExactValue
import RuleAggregate.Proofs.Value.Integers
import RuleAggregate.Proofs.Value.NanFree
import RuleAggregate.Proofs.Value.Nearest
import RuleAggregate.Proofs.Value.NumericOrder
import RuleAggregate.Proofs.Value.Occurrences
import RuleAggregate.Proofs.Value.Rounding
import RuleAggregate.Report.Canvas
import RuleAggregate.Report.Diagnostic
import RuleAggregate.Report.Excerpt
import RuleAggregate.Report.Rendering
import RuleAggregate.Report.Window
import RuleAggregate.Scope.Basic
import RuleAggregate.Scope.Declaration
import RuleAggregate.Source.Basic
import RuleAggregate.Source.Condition
import RuleAggregate.Text.Blank
import RuleAggregate.Text.Columns
import RuleAggregate.Text.Lines
import RuleAggregate.Text.Quoted
import RuleAggregate.Text.Regex
import RuleAggregate.Text.Slice
import RuleAggregate.Text.Unmarked
import RuleAggregate.Tuple
import RuleAggregate.Value.Basic
import RuleAggregate.Value.Display
import RuleAggregate.Value.Order
import RuleAggregate.ValueType
