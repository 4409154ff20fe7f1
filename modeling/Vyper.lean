import Vyper.Text.Position
import Vyper.Text.Utf16
import Vyper.Text.Rows
import Vyper.Syntax.Operator
import Vyper.Syntax.Token
import Vyper.Error
import Vyper.Syntax.StringLiteral
import Vyper.Syntax.Lexeme
import Vyper.Syntax.Layout
import Vyper.Syntax.Tree
import Vyper.Syntax.Parser.Basic
import Vyper.Syntax.Parser.Expression
import Vyper.Syntax.Parser.Statement
import Vyper.Syntax.Parser.Declaration
import Vyper.Syntax.Node
import Vyper.Syntax.Site
import Vyper.Text.CodeTable
import Vyper.Text.MarkTable
import Vyper.Text.Mark
import Vyper.Text.CompositionTable
import Vyper.Text.Composition
import Vyper.Text.Percent
import Vyper.Text.CharTable
import Vyper.Text.CharClass
import Vyper.Files
import Vyper.Typing.BaseType
import Vyper.Typing.TypeText
import Vyper.Typing.Tables
import Vyper.Typing.Annotate
import Vyper.Typing.Import
import Vyper.Folding
import Vyper.Compilation
import Vyper.Text.Lines
import Vyper.Text.Utf8
import Vyper.Host.Address
import Vyper.Host.Punycode
import Vyper.Host.MappingTable
import Vyper.Host.Mapping
import Vyper.Host.DirectionTable
import Vyper.Host.Direction
import Vyper.Host.JoiningTable
import Vyper.Host.Joining
import Vyper.Host.Name
import Vyper.Host.Basic
import Vyper.Editor.Range
import Vyper.Editor.Uri
import Vyper.Editor.Document
import Vyper.Text.Search
import Vyper.Editor.Diagnostic
import Vyper.Editor.LineCursor
import Vyper.Editor.Analysis
import Vyper.Editor.Filter
import Vyper.Editor.Query
import Vyper.Editor.Navigation
import Vyper.Editor.Hover
import Vyper.Editor.Signature
import Vyper.Editor.Completion
import Vyper.Editor.Debounce
import Vyper.Server.Json
import Vyper.Server.JsonText
import Vyper.Server.UriReference
import Vyper.Server.Config
import Vyper.Server.Encode
import Vyper.Server.Message
import Vyper.Server.State
import Vyper.Check
import Vyper.Main
import Vyper.Proofs.Fallible
import Vyper.Proofs.Printing
import Vyper.Proofs.Lexing
import Vyper.Proofs.Reading
import Vyper.Proofs.Precedence
import Vyper.Proofs.Operands
import Vyper.Proofs.RoundTrip
import Vyper.Proofs.TextSync
import Vyper.Proofs.Rebuild
import Vyper.Proofs.Parentheses
import Vyper.Proofs.Paths
import Vyper.Proofs.Substitution
import Vyper.Proofs.FoldedReads
import Vyper.Proofs.FoldedNames
import Vyper.Proofs.Exactness
import Vyper.Proofs.DocumentOrder
import Vyper.Proofs.SourceText
import Vyper.Proofs.LineStructure
import Vyper.Proofs.BuildHistory
import Vyper.Proofs.SymbolTables
import Vyper.Proofs.ModuleBody
import Vyper.Proofs.DeclaredNames
import Vyper.Proofs.WordBoundaries
import Vyper.Proofs.CursorWords
import Vyper.Proofs.SelfMembers
import Vyper.Proofs.Anchoring
import Vyper.Proofs.Margins
import Vyper.Proofs.BareNames
import Vyper.Proofs.Scopes
import Vyper.Proofs.ReadyDocuments
import Vyper.Proofs.References
import Vyper.Proofs.LocalReferences
import Vyper.Proofs.BareDeclarations
import Vyper.Proofs.WordStability
import Vyper.Proofs.LineModels
import Vyper.Proofs.Responses
import Vyper.Proofs.DiagnosticRanges
import Vyper.Proofs.Extent
import Vyper.Proofs.Throughout
import Vyper.Proofs.Headers
import Vyper.Proofs.ActiveParameters
import Vyper.Proofs.LoopHeaders
import Vyper.Proofs.MemberQueries
import Vyper.Proofs.DottedAccesses
import Vyper.Proofs.Brackets
import Vyper.Proofs.Rereading
import Vyper.Proofs.Retracing
import Vyper.Proofs.Stretches
import Vyper.Proofs.EnclosedSources
import Vyper.Proofs.Debouncing
import Vyper.Proofs.DirectImports
import Vyper.Proofs.TypeTexts
import Vyper.Proofs.ErasedTypes
import Vyper.Proofs.WrittenTypes
import Vyper.Proofs.ZeroDivisions
import Vyper.Proofs.ByteOffsets
import Vyper.Proofs.Columns
import Vyper.Proofs.RangedEdits
import Vyper.Proofs.EnclosingDeclarations
import Vyper.Proofs.PrimitiveTypes
import Vyper.Proofs.Zones
import Vyper.Proofs.InvisibleLines
import Vyper.Proofs.Searching
import Vyper.Proofs.DeprecatedUses
import Vyper.Proofs.CallTexts
import Vyper.Proofs.Signatures
import Vyper.Proofs.Termination
import Vyper.Proofs.StringLiterals
import Vyper.Proofs.Subtrees
