import HeaderBindings.Binding.Action
import HeaderBindings.Binding.Declaration
import HeaderBindings.Binding.Enumeration
import HeaderBindings.Binding.Module
import HeaderBindings.Binding.Record
import HeaderBindings.Binding.Registry
import HeaderBindings.Binding.Run
import HeaderBindings.Binding.Simple
import HeaderBindings.CommandLine.Arguments
import HeaderBindings.CommandLine.Command
import HeaderBindings.CommandLine.Options
import HeaderBindings.Download.HeaderCache
import HeaderBindings.Download.HostAddress
import HeaderBindings.Download.PercentEncoding
import HeaderBindings.Download.Url
import HeaderBindings.Files.FileTree
import HeaderBindings.Files.Glob
import HeaderBindings.Files.HeaderLookup
import HeaderBindings.Files.Path
import HeaderBindings.Generation
import HeaderBindings.Main
import HeaderBindings.Matching.Alphabet
import HeaderBindings.Matching.Capture
import HeaderBindings.Matching.Match
import HeaderBindings.Matching.Matcher
import HeaderBindings.Matching.Regex
import HeaderBindings.Mode
import HeaderBindings.Number.Binary64
import HeaderBindings.Number.DecimalText
import HeaderBindings.Number.IntegerText
import HeaderBindings.Pattern.Basic
import HeaderBindings.Pattern.Compose
import HeaderBindings.Pattern.Parser
import HeaderBindings.Pattern.Printer
import HeaderBindings.Pattern.Token
import HeaderBindings.Proofs.ActionSteps
import HeaderBindings.Proofs.Additions
import HeaderBindings.Proofs.AlphabetCodes
import HeaderBindings.Proofs.AlphabetHistory
import HeaderBindings.Proofs.ApartShapes
import HeaderBindings.Proofs.AppendedDeclarations
import HeaderBindings.Proofs.Assignments
import HeaderBindings.Proofs.BindableNames
import HeaderBindings.Proofs.BindingOrder
import HeaderBindings.Proofs.BlankedComments
import HeaderBindings.Proofs.CachePaths
import HeaderBindings.Proofs.CachedDownloads
import HeaderBindings.Proofs.CaptureLayout
import HeaderBindings.Proofs.CapturePositions
import HeaderBindings.Proofs.CaptureWalk
import HeaderBindings.Proofs.CapturedLeaves
import HeaderBindings.Proofs.CharacterConstants
import HeaderBindings.Proofs.ChildCut
import HeaderBindings.Proofs.ClaimedCaptures
import HeaderBindings.Proofs.CommentedRuns
import HeaderBindings.Proofs.CommentedTrees
import HeaderBindings.Proofs.Compilation
import HeaderBindings.Proofs.ComposedPatterns
import HeaderBindings.Proofs.DeclaratorShapes
import HeaderBindings.Proofs.DeclaredNames
import HeaderBindings.Proofs.DefaultGrammar
import HeaderBindings.Proofs.DefinedBodies
import HeaderBindings.Proofs.DocumentOrder
import HeaderBindings.Proofs.EmittedDeclarations
import HeaderBindings.Proofs.EnumeratorNumbers
import HeaderBindings.Proofs.FailingDocuments
import HeaderBindings.Proofs.FieldCaptures
import HeaderBindings.Proofs.FieldConstants
import HeaderBindings.Proofs.FieldShapes
import HeaderBindings.Proofs.Findings
import HeaderBindings.Proofs.FittingTrees
import HeaderBindings.Proofs.FoundNodes
import HeaderBindings.Proofs.FunctionDeclarators
import HeaderBindings.Proofs.FunctionSignatures
import HeaderBindings.Proofs.HeaderPlaces
import HeaderBindings.Proofs.IntegerLiterals
import HeaderBindings.Proofs.LastBindings
import HeaderBindings.Proofs.LiteralCharacters
import HeaderBindings.Proofs.LiteralForms
import HeaderBindings.Proofs.MacroNumbers
import HeaderBindings.Proofs.MatchCover
import HeaderBindings.Proofs.MixedRuns
import HeaderBindings.Proofs.ModuleLines
import HeaderBindings.Proofs.NameCharacters
import HeaderBindings.Proofs.NameSpellings
import HeaderBindings.Proofs.NodeReadings
import HeaderBindings.Proofs.NumberRules
import HeaderBindings.Proofs.NumberedNames
import HeaderBindings.Proofs.NumericLiterals
import HeaderBindings.Proofs.OfferedNodes
import HeaderBindings.Proofs.PatternGrammar
import HeaderBindings.Proofs.PatternRoundTrip
import HeaderBindings.Proofs.PointerTypes
import HeaderBindings.Proofs.RecordFields
import HeaderBindings.Proofs.ReferencedTypes
import HeaderBindings.Proofs.Regeneration
import HeaderBindings.Proofs.Registrations
import HeaderBindings.Proofs.RespelledExpressions
import HeaderBindings.Proofs.RunFaults
import HeaderBindings.Proofs.RunSteps
import HeaderBindings.Proofs.SelfTypedefs
import HeaderBindings.Proofs.SessionMerge
import HeaderBindings.Proofs.Sessions
import HeaderBindings.Proofs.SizedTypes
import HeaderBindings.Proofs.SplicedTexts
import HeaderBindings.Proofs.TypeBlock
import HeaderBindings.Proofs.TypeReferences
import HeaderBindings.Proofs.UnnamedBitFields
import HeaderBindings.Proofs.UnreadableTexts
import HeaderBindings.Proofs.Unrolling
import HeaderBindings.Proofs.UntaggedSpecifiers
import HeaderBindings.Proofs.WrappedDeclarators
import HeaderBindings.Proofs.WrappedTexts
import HeaderBindings.Rules
import HeaderBindings.Settings
import HeaderBindings.Source.Document
import HeaderBindings.Source.Listing
import HeaderBindings.Source.Tree
import HeaderBindings.Spelling.Expression
import HeaderBindings.Spelling.Identifier
import HeaderBindings.Spelling.IntegerValue
import HeaderBindings.Spelling.Literal
import HeaderBindings.Spelling.TypeExpr
import HeaderBindings.Table
import HeaderBindings.Text.Blank
import HeaderBindings.Text.Digit
import HeaderBindings.Text.Line
import HeaderBindings.Text.Quoted
import HeaderBindings.Text.Utf8
import HeaderBindings.Text.Visible
import HeaderBindings.Text.Word
import HeaderBindings.Workspace
