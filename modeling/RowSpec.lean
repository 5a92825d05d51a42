import RowSpec.Attempt
import RowSpec.Config.Basic
import RowSpec.Config.File
import RowSpec.Config.Format
import RowSpec.Decimal.Numeral
import RowSpec.Decimal.Double
import RowSpec.Decimal.Layout
import RowSpec.Decimal.Shortest
import RowSpec.Error
import RowSpec.Expr.Basic
import RowSpec.Expr.Parser
import RowSpec.Expr.Printer
import RowSpec.Expr.Source
import RowSpec.Expr.Trace
import RowSpec.Expr.Traversal
import RowSpec.Json.Codec
import RowSpec.Json.Number
import RowSpec.Json.Problem
import RowSpec.Json.Reader
import RowSpec.Json.Shape
import RowSpec.Json.Skip
import RowSpec.Json.String
import RowSpec.Json.Text
import RowSpec.Json.Writer
import RowSpec.Main
import RowSpec.Operator
import RowSpec.Program
import RowSpec.Reducer
import RowSpec.Schema.Basic
import RowSpec.Schema.Index
import RowSpec.Schema.Registry
import RowSpec.Schema.Table
import RowSpec.Scope
import RowSpec.Session
import RowSpec.Sql.Compile
import RowSpec.Sql.Draft
import RowSpec.Sql.Statement
import RowSpec.Sql.Term
import RowSpec.Text.Backspace
import RowSpec.Text.Blank
import RowSpec.Text.Basic
import RowSpec.Text.Cluster
import RowSpec.Text.ClusterBreak
import RowSpec.Text.Hidden
import RowSpec.Text.Quoted
import RowSpec.Text.Visible
import RowSpec.Token.Basic
import RowSpec.Token.Lexer
import RowSpec.Ty
import RowSpec.Typing
import RowSpec.Proofs.CallNesting
import RowSpec.Proofs.Checking
import RowSpec.Proofs.Drafts
import RowSpec.Proofs.Grammar
import RowSpec.Proofs.Inlining
import RowSpec.Proofs.Lexing
import RowSpec.Proofs.Numerals
import RowSpec.Proofs.Paths
import RowSpec.Proofs.Progress
import RowSpec.Proofs.Registry
import RowSpec.Proofs.RoundTrip
import RowSpec.Proofs.Tree
import RowSpec.Proofs.Numbering
import RowSpec.Proofs.NodeIds
import RowSpec.Proofs.Requests
import RowSpec.Proofs.Unfolding
import RowSpec.Proofs.ReducerCalls
import RowSpec.Proofs.JoinRequests
import RowSpec.Proofs.ParentJoins
import RowSpec.Proofs.Aliases
import RowSpec.Proofs.Accumulation
import RowSpec.Proofs.Conditions
import RowSpec.Proofs.SelectedRows
import RowSpec.Proofs.Operations
import RowSpec.Proofs.Extension
import RowSpec.Proofs.Tiling
import RowSpec.Proofs.LongestMatch
import RowSpec.Proofs.Termination
import RowSpec.Proofs.Erasure
import RowSpec.Proofs.Dialogue
import RowSpec.Proofs.Lines
import RowSpec.Proofs.ViablePrefix
import RowSpec.Proofs.Literals
import RowSpec.Proofs.Scoping
import RowSpec.Proofs.Resolution
import RowSpec.Proofs.RowNames
import RowSpec.Proofs.OwnTable
import RowSpec.Proofs.TypeRules
import RowSpec.Proofs.Containment
import RowSpec.Proofs.Configuration
import RowSpec.Proofs.SourceForm
import RowSpec.Proofs.CodecLaws
import RowSpec.Proofs.JsonReading
import RowSpec.Proofs.ConfigText
import RowSpec.Proofs.Walks
