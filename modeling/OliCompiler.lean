import OliCompiler.Command.Arguments
import OliCompiler.Command.Session
import OliCompiler.Compile
import OliCompiler.Compile.Error
import OliCompiler.Files.Host
import OliCompiler.Files.Tree
import OliCompiler.Ir
import OliCompiler.Ir.Builder
import OliCompiler.Ir.Listing
import OliCompiler.Ir.Llvm
import OliCompiler.Language
import OliCompiler.Lexeme
import OliCompiler.Lower
import OliCompiler.Lower.Error
import OliCompiler.Machine
import OliCompiler.Machine.Fault
import OliCompiler.Machine.Format
import OliCompiler.Machine.Image
import OliCompiler.Machine.Value
import OliCompiler.Main
import OliCompiler.Parse.Cursor
import OliCompiler.Parse.Error
import OliCompiler.Parse.Expr
import OliCompiler.Parse.Program
import OliCompiler.Parse.Stmt
import OliCompiler.Path
import OliCompiler.Resolve
import OliCompiler.Scoped
import OliCompiler.Source.LineIndex
import OliCompiler.Source.Span
import OliCompiler.Text.Decimal
import OliCompiler.Text.Layout
import OliCompiler.Text.Quoted
import OliCompiler.Token
import OliCompiler.Token.LexicalError
import OliCompiler.Token.Listing
import OliCompiler.Token.Scan
import OliCompiler.Tree
import OliCompiler.Tree.Outline
import OliCompiler.Proofs.Evaluation.Basic
import OliCompiler.Proofs.Evaluation.Tree
import OliCompiler.Proofs.Evaluation.Scoped
import OliCompiler.Proofs.Scope.Resolution
import OliCompiler.Proofs.Scope.WellScoped
import OliCompiler.Proofs.Scope.Settled
import OliCompiler.Proofs.Scope.Agreement
import OliCompiler.Proofs.Lowering.Code
import OliCompiler.Proofs.Lowering.Shape
import OliCompiler.Proofs.Lowering.Account
import OliCompiler.Proofs.Lowering.Emission
import OliCompiler.Proofs.Lowering.Statements
import OliCompiler.Proofs.Lowering.Module
import OliCompiler.Proofs.Execution.Simulates
import OliCompiler.Proofs.Execution.Steps
import OliCompiler.Proofs.Execution.Matching
import OliCompiler.Proofs.Execution.Expressions
import OliCompiler.Proofs.Execution.Statements
import OliCompiler.Proofs.Lowering.Layout
import OliCompiler.Proofs.Execution.Calls
import OliCompiler.Proofs.Execution.Program
import OliCompiler.Proofs.Correctness
import OliCompiler.Proofs.Safety
import OliCompiler.Proofs.Initialisation
import OliCompiler.Proofs.Verifier.Pieces
import OliCompiler.Proofs.Verifier.Statements
import OliCompiler.Proofs.Verifier.Module
import OliCompiler.Proofs.Grammar.Cursors
import OliCompiler.Proofs.Grammar.Expressions
import OliCompiler.Proofs.Grammar.Statements
import OliCompiler.Proofs.Grammar.Programs
import OliCompiler.Proofs.Scanning.Longest
import OliCompiler.Proofs.Scanning.Tokens
import OliCompiler.Proofs.Printing.Source
import OliCompiler.Proofs.Printing.RoundTrip
import OliCompiler.Proofs.Lowering.Closing
import OliCompiler.Proofs.Scope.Reports
import OliCompiler.Proofs.Scope.Acceptance
import OliCompiler.Proofs.Limits
import OliCompiler.Proofs.Lowering.Alone
import OliCompiler.Proofs.Reordering
import OliCompiler.Proofs.Places
import OliCompiler.Proofs.Stages.Reading
import OliCompiler.Proofs.Stages
import OliCompiler.Proofs.Symbols
import OliCompiler.Proofs.Spans.Rules
import OliCompiler.Proofs.Spans.Scanning
import OliCompiler.Proofs.Spans.Trees
import OliCompiler.Proofs.Spans
import OliCompiler.Proofs.Builder.Invariant
import OliCompiler.Proofs.Builder.Agreement
import OliCompiler.Proofs.Builder.Counting
import OliCompiler.Proofs.Builder
import OliCompiler.Proofs.Texts
import OliCompiler.Proofs.Tables
import OliCompiler.Proofs.Layers
import OliCompiler.Proofs.Commands
import OliCompiler.Proofs.Expansion
import OliCompiler.Proofs.Stepping
import OliCompiler.Proofs.Scanning.Faults
import OliCompiler.Proofs.Labels
import OliCompiler.Proofs.Lookahead
import OliCompiler.Proofs.Lines
import OliCompiler.Proofs.Scanning.Shifting
import OliCompiler.Proofs.Joining
import OliCompiler.Proofs.Output
import OliCompiler.Proofs.Output.Formats
import OliCompiler.Proofs.Commands.Running
import OliCompiler.Proofs.Lowering.Leading
import OliCompiler.Proofs.Lowering.Marking
import OliCompiler.Proofs.Lowering.Chains
import OliCompiler.Proofs.Merges
import OliCompiler.Proofs.Indexing
import OliCompiler.Proofs.Paths.Components
import OliCompiler.Proofs.Paths.Outputs
import OliCompiler.Proofs.Files.Locations
import OliCompiler.Proofs.Paths
import OliCompiler.Proofs.Commands.Silence
import OliCompiler.Proofs.Preservation
import OliCompiler.Proofs.Literals
import OliCompiler.Proofs.Progress.Loops
import OliCompiler.Proofs.Progress.Budgets
import OliCompiler.Proofs.Progress.Rounds
import OliCompiler.Proofs.Progress
