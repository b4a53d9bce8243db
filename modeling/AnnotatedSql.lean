import AnnotatedSql.Batch
import AnnotatedSql.Collect
import AnnotatedSql.CommandLine.Argument
import AnnotatedSql.CommandLine.Command
import AnnotatedSql.CommandLine.Execute
import AnnotatedSql.Config.Basic
import AnnotatedSql.Config.Load
import AnnotatedSql.Config.Place
import AnnotatedSql.Config.Schema
import AnnotatedSql.Decimal.Binary64
import AnnotatedSql.Decimal.Ratio
import AnnotatedSql.Decimal.Shortest
import AnnotatedSql.Declaration
import AnnotatedSql.Diagnostic
import AnnotatedSql.Disk.Basic
import AnnotatedSql.Disk.Fault
import AnnotatedSql.Disk.Path
import AnnotatedSql.Disk.Tree
import AnnotatedSql.Disk.Write
import AnnotatedSql.Entries
import AnnotatedSql.Identifier
import AnnotatedSql.Json.NumberLiteral
import AnnotatedSql.Json.Print
import AnnotatedSql.Json.Read
import AnnotatedSql.Json.Reader
import AnnotatedSql.Json.StringLiteral
import AnnotatedSql.Json.Value
import AnnotatedSql.Lint
import AnnotatedSql.Main
import AnnotatedSql.Manifest
import AnnotatedSql.Mode
import AnnotatedSql.Output.Module
import AnnotatedSql.Output.Plan
import AnnotatedSql.Output.Run
import AnnotatedSql.Procedure
import AnnotatedSql.ScalarType
import AnnotatedSql.Signature
import AnnotatedSql.Source.Code
import AnnotatedSql.Source.Error
import AnnotatedSql.Source.Header
import AnnotatedSql.Source.Mistake
import AnnotatedSql.Source.ParamLine
import AnnotatedSql.Source.Placeholder
import AnnotatedSql.Statement
import AnnotatedSql.Template
import AnnotatedSql.Text
import AnnotatedSql.Text.Quoted
import AnnotatedSql.Text.Unprintable
import AnnotatedSql.Toml.DateTime
import AnnotatedSql.Toml.NumberLiteral
import AnnotatedSql.Toml.Read
import AnnotatedSql.Toml.StringLiteral
import AnnotatedSql.Toml.Table
import AnnotatedSql.Toml.Validity
import AnnotatedSql.Toml.Value
import AnnotatedSql.Proofs.Identifier
import AnnotatedSql.Proofs.Header
import AnnotatedSql.Proofs.Parameters
import AnnotatedSql.Proofs.Resolution
import AnnotatedSql.Proofs.Signature
import AnnotatedSql.Proofs.Scope
import AnnotatedSql.Proofs.WrittenHeader
import AnnotatedSql.Proofs.MistakeSpan
import AnnotatedSql.Proofs.Segments
import AnnotatedSql.Proofs.Rewriting
import AnnotatedSql.Proofs.Verdict
import AnnotatedSql.Proofs.TemplateLiteral
import AnnotatedSql.Proofs.ReadBack
import AnnotatedSql.Proofs.HeaderLine
import AnnotatedSql.Proofs.LineEnding
import AnnotatedSql.Proofs.DeclarationOrder
import AnnotatedSql.Proofs.Compilation
import AnnotatedSql.Proofs.Independence
import AnnotatedSql.Proofs.Operations
import AnnotatedSql.Proofs.WholeBatches
import AnnotatedSql.Proofs.Lints
import AnnotatedSql.Proofs.Template
import AnnotatedSql.Proofs.Artifacts
import AnnotatedSql.Proofs.Agreement
import AnnotatedSql.Proofs.DocComment
import AnnotatedSql.Proofs.Collection
import AnnotatedSql.Proofs.TopLevel
import AnnotatedSql.Proofs.JsonLiteral
import AnnotatedSql.Proofs.JsonValue
import AnnotatedSql.Proofs.Places
import AnnotatedSql.Proofs.Preview
import AnnotatedSql.Proofs.Registration
import AnnotatedSql.Proofs.Rerun
import AnnotatedSql.Proofs.Arguments
import AnnotatedSql.Proofs.AliasOwner
import AnnotatedSql.Proofs.Accounting
import AnnotatedSql.Proofs.Commands
import AnnotatedSql.Proofs.PositionCount
import AnnotatedSql.Proofs.BareQuestion
import AnnotatedSql.Proofs.BodyCut
import AnnotatedSql.Proofs.HeaderVerdict
import AnnotatedSql.Proofs.Ancestors
import AnnotatedSql.Proofs.Directories
import AnnotatedSql.Proofs.WriteContract
import AnnotatedSql.Proofs.ExportEntry
import AnnotatedSql.Proofs.NameGate
import AnnotatedSql.Proofs.ByteOrder
import AnnotatedSql.Proofs.Listing
import AnnotatedSql.Proofs.ValuePlace
import AnnotatedSql.Proofs.DocumentKeys
import AnnotatedSql.Proofs.Schema
