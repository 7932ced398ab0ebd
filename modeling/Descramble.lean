import Descramble.Alias
import Descramble.CommandLine.Arguments
import Descramble.CommandLine.Directory
import Descramble.CommandLine.Session
import Descramble.DeadCode
import Descramble.Document
import Descramble.Double
import Descramble.Double.Decimal
import Descramble.Double.Power
import Descramble.Evaluation
import Descramble.Fault
import Descramble.Link
import Descramble.Markup.Script
import Descramble.Markup.Tag
import Descramble.Number
import Descramble.Number.Reading
import Descramble.Pass.Fold
import Descramble.Pass.Inline
import Descramble.Pass.Normalize
import Descramble.Pass.Resolve
import Descramble.Pass.Revision
import Descramble.Report
import Descramble.Run
import Descramble.Scope.Analysis
import Descramble.Scope.Declaration
import Descramble.Script
import Descramble.Settings
import Descramble.Source.Failure
import Descramble.Source.Formatter
import Descramble.Source.Formatter.Extent
import Descramble.Source.Formatter.Lexeme
import Descramble.Source.Formatter.Lexing
import Descramble.Source.Formatter.Page
import Descramble.Source.Formatter.Remarks
import Descramble.Source.Formatter.Rules
import Descramble.Source.Packed
import Descramble.Source.Parser
import Descramble.Source.Parser.Basic
import Descramble.Source.Parser.Class
import Descramble.Source.Parser.Expression
import Descramble.Source.Parser.Function
import Descramble.Source.Parser.Statement
import Descramble.Source.Printer
import Descramble.Source.Printer.Expression
import Descramble.Source.Printer.Piece
import Descramble.Source.Printer.Spelling
import Descramble.Source.Printer.Statement
import Descramble.Source.Regex
import Descramble.Source.Token
import Descramble.Table.Shape
import Descramble.Table.State
import Descramble.Text
import Descramble.Text.Quoted
import Descramble.Text.Utf8
import Descramble.Tree.Format
import Descramble.Tree.Kind
import Descramble.Tree.Literal
import Descramble.Tree.Node
import Descramble.Tree.Position
import Descramble.Tree.Walk
import Descramble.Unicode.Alphanumeric
import Descramble.Unicode.Casing
import Descramble.Unicode.Digit
import Descramble.Unicode.Identifier
import Descramble.Unicode.Printable
import Descramble.Unicode.Ranges
import Descramble.Unicode.Word
import Descramble.Value
import Descramble.Value.Builtin
import Descramble.Value.Method
import Descramble.Value.Operator
import Descramble.Main
import Descramble.Proofs.DeadCode.Again
import Descramble.Proofs.DeadCode.Least
import Descramble.Proofs.DeadCode.Removal
import Descramble.Proofs.DeadCode.Rounds
import Descramble.Proofs.DeadCode.Slots
import Descramble.Proofs.DeadCode.Sweep
import Descramble.Proofs.Evaluation.Acyclic
import Descramble.Proofs.Evaluation.Agreement
import Descramble.Proofs.Evaluation.CodeUnits
import Descramble.Proofs.Evaluation.Computes
import Descramble.Proofs.Evaluation.LeftAlone
import Descramble.Proofs.Evaluation.Limit
import Descramble.Proofs.Evaluation.Literal
import Descramble.Proofs.Evaluation.Replacement
import Descramble.Proofs.Evaluation.Simulation
import Descramble.Proofs.Evaluation.TextLength
import Descramble.Proofs.Markup.Script
import Descramble.Proofs.Markup.Tag
import Descramble.Proofs.Number.Digit
import Descramble.Proofs.Number.Exact
import Descramble.Proofs.Number.IntegerText
import Descramble.Proofs.Number.Limit
import Descramble.Proofs.Number.Nearest
import Descramble.Proofs.Number.PowerLimit
import Descramble.Proofs.Number.Prefixed
import Descramble.Proofs.Number.Shortest
import Descramble.Proofs.Number.Spelling
import Descramble.Proofs.Number.WholePower
import Descramble.Proofs.Number.WholeText
import Descramble.Proofs.Number.WidePower
import Descramble.Proofs.Number.WrittenDecimal
import Descramble.Proofs.Pass.Aliases
import Descramble.Proofs.Pass.AliasSearch
import Descramble.Proofs.Pass.Chains
import Descramble.Proofs.Pass.Descent
import Descramble.Proofs.Pass.Edit
import Descramble.Proofs.Pass.Folding
import Descramble.Proofs.Pass.Frame
import Descramble.Proofs.Pass.Initialized
import Descramble.Proofs.Pass.Inlining
import Descramble.Proofs.Pass.Names
import Descramble.Proofs.Pass.Normalizing
import Descramble.Proofs.Pass.PlainAnalysis
import Descramble.Proofs.Pass.PlainNames
import Descramble.Proofs.Pass.PlainValues
import Descramble.Proofs.Pass.Reanalysis
import Descramble.Proofs.Pass.ResolvedCalls
import Descramble.Proofs.Pass.Resolving
import Descramble.Proofs.Pass.Revised
import Descramble.Proofs.Pass.Targets
import Descramble.Proofs.Pass.WrittenNames
import Descramble.Proofs.Run.Bound
import Descramble.Proofs.Run.Callers
import Descramble.Proofs.Run.Discovery
import Descramble.Proofs.Run.Names
import Descramble.Proofs.Run.Outcome
import Descramble.Proofs.Run.Reports
import Descramble.Proofs.Run.Settled
import Descramble.Proofs.Scope.ClassName
import Descramble.Proofs.Scope.Embedding
import Descramble.Proofs.Scope.Enclosing
import Descramble.Proofs.Scope.Nearest
import Descramble.Proofs.Scope.Pattern
import Descramble.Proofs.Scope.Placement
import Descramble.Proofs.Scope.Resolution
import Descramble.Proofs.Scope.Uses
import Descramble.Proofs.Scope.Writes
import Descramble.Proofs.Table.Renaming
import Descramble.Proofs.Text.Link
import Descramble.Proofs.Text.Utf8
import Descramble.Proofs.Tree.Below
import Descramble.Proofs.Tree.Building
import Descramble.Proofs.Tree.Interval
import Descramble.Proofs.Tree.Layout
import Descramble.Proofs.Tree.Mention
import Descramble.Proofs.Tree.Order
import Descramble.Proofs.Tree.Place
import Descramble.Proofs.Tree.Pruned
import Descramble.Proofs.Tree.Renaming
import Descramble.Proofs.Tree.Walk
import Descramble.Proofs.Tree.Weight
import Descramble.Proofs.Value.Arithmetic
import Descramble.Proofs.Value.BasicPlane
import Descramble.Proofs.Value.IndexOf
import Descramble.Proofs.Value.Length
import Descramble.Proofs.Value.Normal
import Descramble.Proofs.Value.Power
import Descramble.Proofs.Value.Slice
import Descramble.Proofs.Value.Split
import Descramble.Proofs.Value.Word
import Descramble.Proofs.Encoded.Chain
import Descramble.Proofs.Encoded.Decoding
import Descramble.Proofs.Encoded.Recovery
import Descramble.Proofs.Source.Printable
