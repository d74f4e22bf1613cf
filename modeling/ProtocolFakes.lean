import ProtocolFakes.CommandLine
import ProtocolFakes.CommandLine.Argument
import ProtocolFakes.CommandLine.Error
import ProtocolFakes.CommandLine.Generate
import ProtocolFakes.CommandLine.Init
import ProtocolFakes.CommandLine.Options
import ProtocolFakes.CommandLine.Outcome
import ProtocolFakes.CommandLine.Request
import ProtocolFakes.CommandLine.SelectorCommand
import ProtocolFakes.CommandLine.Usage
import ProtocolFakes.Config
import ProtocolFakes.Config.File
import ProtocolFakes.Config.Text
import ProtocolFakes.Disk
import ProtocolFakes.Document
import ProtocolFakes.Failure
import ProtocolFakes.Fake
import ProtocolFakes.Fake.Naming
import ProtocolFakes.Fake.Plan
import ProtocolFakes.FilePath
import ProtocolFakes.FileSystem
import ProtocolFakes.FreshName
import ProtocolFakes.Generation
import ProtocolFakes.Generation.Recording
import ProtocolFakes.Json
import ProtocolFakes.Json.Reader
import ProtocolFakes.Json.Writer
import ProtocolFakes.Main
import ProtocolFakes.MethodKind
import ProtocolFakes.Outline
import ProtocolFakes.Outline.Directive
import ProtocolFakes.Outline.Mark
import ProtocolFakes.Outline.Context
import ProtocolFakes.Outline.Reader
import ProtocolFakes.Outline.Width
import ProtocolFakes.Persistence
import ProtocolFakes.Protocol
import ProtocolFakes.Protocol.Record
import ProtocolFakes.Protocol.Source
import ProtocolFakes.Selection
import ProtocolFakes.Selection.File
import ProtocolFakes.Selector
import ProtocolFakes.Selector.Declaration
import ProtocolFakes.Selector.DeclarationTree
import ProtocolFakes.Selector.Edit
import ProtocolFakes.Selector.Error
import ProtocolFakes.Selector.Record
import ProtocolFakes.Selector.Render
import ProtocolFakes.SourceRange
import ProtocolFakes.Text.Blank
import ProtocolFakes.Text.Byte
import ProtocolFakes.Text.Line
import ProtocolFakes.Text.Natural
import ProtocolFakes.Text.Search
import ProtocolFakes.Text.Uppercase
import ProtocolFakes.TextEdit
import ProtocolFakes.Token
import ProtocolFakes.Token.Lexer
import ProtocolFakes.TypeSpelling
import ProtocolFakes.Proofs.Selector.Grammar
import ProtocolFakes.Proofs.SourceRange.Envelope
import ProtocolFakes.Proofs.Selector.Invariant
import ProtocolFakes.Proofs.Selector.Reading
import ProtocolFakes.Proofs.Selector.Trailer
import ProtocolFakes.Proofs.Selector.EditStep
import ProtocolFakes.Proofs.Selector.Reachable
import ProtocolFakes.Proofs.Selector.Acceptance
import ProtocolFakes.Proofs.Selector.Pairing
import ProtocolFakes.Proofs.Token.Cut
import ProtocolFakes.Proofs.Token.Pieces
import ProtocolFakes.Proofs.Token.Layout
import ProtocolFakes.Proofs.Token.Trivia
import ProtocolFakes.Proofs.Token.Respelling
import ProtocolFakes.Proofs.Token.Writing
import ProtocolFakes.Proofs.Selector.Legible
import ProtocolFakes.Proofs.Selector.Rendering
import ProtocolFakes.Proofs.Selector.WriteBack
import ProtocolFakes.Proofs.Token.Partition
import ProtocolFakes.Proofs.Token.NormalForm
import ProtocolFakes.Proofs.Token.Slice
import ProtocolFakes.Proofs.Selector.Shift
import ProtocolFakes.Proofs.Selector.Position
import ProtocolFakes.Proofs.Disk.Change
import ProtocolFakes.Proofs.Disk.Undo
import ProtocolFakes.Proofs.Disk.Tree
import ProtocolFakes.Proofs.Disk.Route
import ProtocolFakes.Proofs.Disk.StraightPath
import ProtocolFakes.Proofs.Disk.TreeStep
import ProtocolFakes.Proofs.Persistence
import ProtocolFakes.Proofs.Fake.Stem
import ProtocolFakes.Proofs.Fake.Agreement
import ProtocolFakes.Proofs.Fake.Conformance
import ProtocolFakes.Proofs.Fake.Recording
import ProtocolFakes.Proofs.Persistence.Delivery
import ProtocolFakes.Proofs.Persistence.Footprint
import ProtocolFakes.Proofs.Generation
import ProtocolFakes.Proofs.Json.Pretty
import ProtocolFakes.Proofs.Protocol.Members
import ProtocolFakes.Proofs.Protocol.MethodAt
import ProtocolFakes.Proofs.Config
import ProtocolFakes.Proofs.Selector.Placeholder
import ProtocolFakes.Proofs.Selector.Undo
import ProtocolFakes.Proofs.CommandLine.Rewriting
import ProtocolFakes.Proofs.CommandLine.LineNumber
import ProtocolFakes.Proofs.Selector.Refusal
import ProtocolFakes.Proofs.Selector.Extent
import ProtocolFakes.Proofs.Fake.Allocation
import ProtocolFakes.Proofs.Selector.Alert
import ProtocolFakes.Proofs.Text.Search
import ProtocolFakes.Proofs.Text.Words
import ProtocolFakes.Proofs.Text.Lines
import ProtocolFakes.Proofs.Text.Natural
import ProtocolFakes.Proofs.Selection
import ProtocolFakes.Proofs.TypeSpelling.Annotation
import ProtocolFakes.Proofs.TypeSpelling.Storage
import ProtocolFakes.Proofs.TypeSpelling.Declarator
import ProtocolFakes.Proofs.TypeSpelling.GenericClass
import ProtocolFakes.Proofs.Token.Bare
import ProtocolFakes.Proofs.TypeSpelling.NamePlace
import ProtocolFakes.Proofs.FilePath
import ProtocolFakes.Proofs.Config.Discovery
import ProtocolFakes.Proofs.Text.Boundary
import ProtocolFakes.Proofs.SourceRange.Slice
import ProtocolFakes.Proofs.TextEdit
import ProtocolFakes.Proofs.Json.Compact
import ProtocolFakes.Proofs.Selector.Record
import ProtocolFakes.Token.Scanner
import ProtocolFakes.Proofs.Token.Scanner.Position
import ProtocolFakes.Proofs.Token.Scanner.Turn
import ProtocolFakes.Proofs.Token.Scanner.Entry
import ProtocolFakes.Proofs.Token.Scanner.Run
import ProtocolFakes.Proofs.Selector.Keyword
