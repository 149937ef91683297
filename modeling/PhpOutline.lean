import PhpOutline.ByteSource
import PhpOutline.Config
import PhpOutline.Diagnostic
import PhpOutline.Discovery
import PhpOutline.Disk
import PhpOutline.Document
import PhpOutline.Indexing
import PhpOutline.Intent
import PhpOutline.Json.Basic
import PhpOutline.Json.Parser
import PhpOutline.Json.Printer
import PhpOutline.Json.Shape
import PhpOutline.Label
import PhpOutline.Lookback
import PhpOutline.Options
import PhpOutline.Path
import PhpOutline.Position
import PhpOutline.Proofs.ByteReading
import PhpOutline.Proofs.ClientEdits
import PhpOutline.Proofs.CodeTokens
import PhpOutline.Proofs.ColumnConversion
import PhpOutline.Proofs.Comments
import PhpOutline.Proofs.DeclarationForest
import PhpOutline.Proofs.Declarations
import PhpOutline.Proofs.DiagnosticPlaces
import PhpOutline.Proofs.DistinctKeys
import PhpOutline.Proofs.DocumentLines
import PhpOutline.Proofs.DocumentNotices
import PhpOutline.Proofs.ForestScan
import PhpOutline.Proofs.LabelRoles
import PhpOutline.Proofs.LexicalState
import PhpOutline.Proofs.LineEnds
import PhpOutline.Proofs.ListedColumns
import PhpOutline.Proofs.LookbackHistory
import PhpOutline.Proofs.LookbackWindow
import PhpOutline.Proofs.LossyDecoding
import PhpOutline.Proofs.NameParts
import PhpOutline.Proofs.Nesting
import PhpOutline.Proofs.OpaqueRegions
import PhpOutline.Proofs.OpenRegions
import PhpOutline.Proofs.OpenTags
import PhpOutline.Proofs.OptionEffects
import PhpOutline.Proofs.ParallelRuns
import PhpOutline.Proofs.Parentheses
import PhpOutline.Proofs.Placement
import PhpOutline.Proofs.Places
import PhpOutline.Proofs.ReportPlaces
import PhpOutline.Proofs.ResultCap
import PhpOutline.Proofs.SearchOrder
import PhpOutline.Proofs.Segments
import PhpOutline.Proofs.SessionCoherence
import PhpOutline.Proofs.Settings
import PhpOutline.Proofs.SymbolEdits
import PhpOutline.Proofs.SymbolOrder
import PhpOutline.Proofs.SymbolSearch
import PhpOutline.Proofs.Trace
import PhpOutline.Proofs.Utf8Encoding
import PhpOutline.Proofs.WorkspaceIndexing
import PhpOutline.Protocol.Basic
import PhpOutline.Protocol.Capabilities
import PhpOutline.Protocol.Requests
import PhpOutline.Region
import PhpOutline.Report
import PhpOutline.Scanner.Basic
import PhpOutline.Scanner.Step
import PhpOutline.Session.Answer
import PhpOutline.Session.Basic
import PhpOutline.Session.Message
import PhpOutline.Session.Params
import PhpOutline.Session.Workspace
import PhpOutline.Symbol
import PhpOutline.Symbol.Record
import PhpOutline.SymbolIndex
import PhpOutline.SystemError
import PhpOutline.Text.CaseTable
import PhpOutline.Text.Lines
import PhpOutline.Text.Lowercase
import PhpOutline.Text.Utf16
import PhpOutline.Text.Utf8
import PhpOutline.Uri
import PhpOutline.UriMap
import PhpOutline.Proofs.DirectoryTrees
import PhpOutline.Proofs.FileDiscovery
