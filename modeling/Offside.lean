import Offside.Command.Arguments
import Offside.Command.Run
import Offside.Conversion
import Offside.Diagnostic
import Offside.Files.Path
import Offside.Files.Store
import Offside.Json.Basic
import Offside.Json.Dump
import Offside.Layout.Expr
import Offside.Layout.Line
import Offside.Layout.Stmt
import Offside.Layout.Writer
import Offside.Main
import Offside.Parser.Basic
import Offside.Parser.Cursor
import Offside.Parser.Expression
import Offside.Parser.Statement
import Offside.Proofs.Assignment.Chain
import Offside.Proofs.Assignment.Line
import Offside.Proofs.Command.Effects
import Offside.Proofs.Command.Overwriting
import Offside.Proofs.Conversion.Locals
import Offside.Proofs.Conversion.OutputLines
import Offside.Proofs.Conversion.Placement
import Offside.Proofs.Conversion.Shape
import Offside.Proofs.Files.Writing
import Offside.Proofs.Json.Decode
import Offside.Proofs.Json.Reader
import Offside.Proofs.Layout.Bindings
import Offside.Proofs.Layout.Grouping
import Offside.Proofs.Layout.Indentation
import Offside.Proofs.Layout.LeadingWord
import Offside.Proofs.Layout.Lines
import Offside.Proofs.Layout.OneLine
import Offside.Proofs.Layout.Outline
import Offside.Proofs.Layout.Placement
import Offside.Proofs.Layout.Refusal
import Offside.Proofs.Layout.Targets
import Offside.Proofs.Layout.Text
import Offside.Proofs.Layout.Writer
import Offside.Proofs.Loop.Behaviour
import Offside.Proofs.Loop.WhileForm
import Offside.Proofs.Parser.Cursor
import Offside.Proofs.Parser.Expression
import Offside.Proofs.Parser.Grammar
import Offside.Proofs.Parser.Leaves
import Offside.Proofs.Parser.Nesting
import Offside.Proofs.Parser.Print
import Offside.Proofs.Parser.Progress
import Offside.Proofs.Parser.Resuming
import Offside.Proofs.Parser.RoundTrip
import Offside.Proofs.Parser.Semicolon
import Offside.Proofs.Parser.Soundness
import Offside.Proofs.Parser.Source
import Offside.Proofs.Parser.Takes
import Offside.Proofs.Python.Expression
import Offside.Proofs.Python.Token
import Offside.Proofs.Scope.Declared
import Offside.Proofs.Scope.FirstMeaning
import Offside.Proofs.Scope.History
import Offside.Proofs.Scope.Reading
import Offside.Proofs.Scope.Visitor
import Offside.Proofs.Token.Blanking
import Offside.Proofs.Token.Determined
import Offside.Proofs.Token.LineEnds
import Offside.Proofs.Token.Names
import Offside.Proofs.Token.Requoting
import Offside.Proofs.Token.Respelling
import Offside.Proofs.Token.Spelling
import Offside.Proofs.Token.Tiling
import Offside.Proofs.Tree.Leaves
import Offside.Proofs.Tree.Paths
import Offside.Report
import Offside.Scope.Check
import Offside.Scope.Event
import Offside.Scope.Table
import Offside.Scope.Visitor
import Offside.Span
import Offside.Token.Basic
import Offside.Token.Piece
import Offside.Tree
