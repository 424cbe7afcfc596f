import Salita.Builtin.Arguments
import Salita.Builtin.Basic
import Salita.Builtin.Conversion
import Salita.Builtin.Dispatch
import Salita.Builtin.Lists
import Salita.Builtin.Numeric
import Salita.Builtin.Transfer
import Salita.Command
import Salita.Evaluation.Error
import Salita.Evaluation.Indexing
import Salita.Evaluation.Operation
import Salita.Evaluation.Store
import Salita.File.Disk
import Salita.File.Handle
import Salita.File.Reference
import Salita.Interpreter.Environment
import Salita.Interpreter.Expression
import Salita.Interpreter.Source
import Salita.Interpreter.Statement
import Salita.Interpreter.Suggestion
import Salita.Main
import Salita.Number.Binary64
import Salita.Number.Layout
import Salita.Number.Reading
import Salita.Number.Shortest
import Salita.Number.Whole
import Salita.Proofs.Builtin.Composition
import Salita.Proofs.Computation
import Salita.Proofs.Interpreter.Composition
import Salita.Proofs.Interpreter.Frame
import Salita.Proofs.Interpreter.Joining
import Salita.Proofs.Interpreter.Leaving
import Salita.Proofs.Interpreter.Location
import Salita.Proofs.Interpreter.Pruning
import Salita.Proofs.Interpreter.Relocation
import Salita.Proofs.Interpreter.Renaming
import Salita.Proofs.Interpreter.Simulation
import Salita.Proofs.Number.Reading
import Salita.Proofs.Source.Bytes
import Salita.Proofs.Syntax.Completeness
import Salita.Proofs.Syntax.Cursor
import Salita.Proofs.Syntax.Exactness
import Salita.Proofs.Syntax.Grammar
import Salita.Proofs.Syntax.Kinds
import Salita.Proofs.Syntax.Nesting
import Salita.Proofs.Syntax.Operations
import Salita.Proofs.Syntax.Progress
import Salita.Proofs.Syntax.Recursion
import Salita.Proofs.Syntax.Relocation
import Salita.Proofs.Syntax.Soundness
import Salita.Proofs.Syntax.Spans
import Salita.Proofs.Syntax.Viability
import Salita.Proofs.Token.Lexeme
import Salita.Proofs.Token.Scanning
import Salita.Proofs.Token.Spelling
import Salita.Proofs.Token.Tiling
import Salita.Report.Basic
import Salita.Report.Terminal
import Salita.Source.Bytes
import Salita.Source.Lines
import Salita.Source.Span
import Salita.Syntax.Basic
import Salita.Syntax.Cursor
import Salita.Syntax.Error
import Salita.Syntax.Operator
import Salita.Syntax.Outline
import Salita.Syntax.Parser
import Salita.Text.Blank
import Salita.Text.Distance
import Salita.Text.Quoted
import Salita.Text.Unprintable
import Salita.Token.Basic
import Salita.Token.Error
import Salita.Token.Lexer
import Salita.Value.Basic
import Salita.Value.Display
import Salita.Value.Order
import Salita.Value.Sort
import Salita.Proofs.Builtin.Storage
import Salita.Proofs.Interpreter.Storage
import Salita.Proofs.Interpreter.Output
import Salita.Proofs.File.Handle
import Salita.Proofs.Interpreter.Closing
import Salita.Proofs.Value.Comparison
import Salita.Proofs.Value.Order
import Salita.Proofs.Value.Sort
import Salita.Proofs.Builtin.Sorting
import Salita.Proofs.Number.Whole
import Salita.Proofs.Evaluation.Arithmetic
import Salita.Proofs.Number.Multiple
import Salita.Proofs.Builtin.Rounding
import Salita.Proofs.Builtin.InPlace
import Salita.Proofs.Interpreter.Iteration
import Salita.Proofs.Number.Binary64
import Salita.Proofs.Evaluation.Comparison
import Salita.Proofs.Value.Number
import Salita.Proofs.Evaluation.Numbers
import Salita.Proofs.Evaluation.Repetition
import Salita.Proofs.Evaluation.Copies
import Salita.Proofs.Value.Displacement
import Salita.Proofs.Builtin.Unordered
import Salita.Proofs.Value.Sameness
import Salita.Proofs.Value.Comparable
import Salita.Proofs.Builtin.Extremes
import Salita.Proofs.Builtin.Mixed
import Salita.Proofs.Interpreter.Updating
import Salita.Proofs.Value.Display
import Salita.Proofs.Token.Obstacle
import Salita.Proofs.Syntax.Pairing
import Salita.Proofs.Syntax.Braces
import Salita.Proofs.Token.Cutting
import Salita.Proofs.Syntax.Occurrence
import Salita.Proofs.Syntax.Excerpt
import Salita.Proofs.Text.Distance
import Salita.Proofs.Interpreter.Suggestion
import Salita.Proofs.Source.Lines
import Salita.Proofs.Report.Piece
import Salita.Proofs.Report.Snippet
import Salita.Proofs.Report.Color
import Salita.Proofs.File.Tape
import Salita.Proofs.Interpreter.Session
import Salita.Proofs.Text.Blank
import Salita.Proofs.Builtin.Conversion
import Salita.Proofs.Interpreter.Registry
