import ScriptSymbols.Buffer
import ScriptSymbols.CommandLine
import ScriptSymbols.Fixture
import ScriptSymbols.Json.Printer
import ScriptSymbols.Json.Reader
import ScriptSymbols.Main
import ScriptSymbols.Proofs.Outline.Attribution
import ScriptSymbols.Proofs.Skeleton.Stability
import ScriptSymbols.Proofs.Workspace.Sync
import ScriptSymbols.Script.Outline
import ScriptSymbols.Text.Lowercase
import ScriptSymbols.Text.Utf8
import ScriptSymbols.Proofs.Workspace.Batch
import ScriptSymbols.Proofs.Workspace.Rebuild
import ScriptSymbols.Proofs.Server.Interleaving
import ScriptSymbols.Proofs.Path.FileUri
import ScriptSymbols.Proofs.Disk.Tree
import ScriptSymbols.Proofs.Disk.Walk
import ScriptSymbols.Proofs.Workspace.Admission
import ScriptSymbols.Proofs.Workspace.Incremental
import ScriptSymbols.Proofs.Index.History
import ScriptSymbols.Proofs.Outline.Append
import ScriptSymbols.Proofs.Outline.Above
import ScriptSymbols.Proofs.Outline.Hidden
import ScriptSymbols.Proofs.Outline.Blanked
import ScriptSymbols.Proofs.Skeleton.CaseFolding
import ScriptSymbols.Proofs.Statement.CaseFolding
import ScriptSymbols.Proofs.Outline.CaseFolding
import ScriptSymbols.Proofs.Outline.Names
import ScriptSymbols.Proofs.Skeleton.Words
import ScriptSymbols.Proofs.Skeleton.Passes
import ScriptSymbols.Proofs.Statement.Words
import ScriptSymbols.Proofs.Workspace.Completion
import ScriptSymbols.Proofs.Outline.Layout
import ScriptSymbols.Proofs.Skeleton.Plain
import ScriptSymbols.Proofs.Statement.Forms
import ScriptSymbols.Proofs.Outline.Lines
import ScriptSymbols.Proofs.Text.Printed
import ScriptSymbols.Proofs.Outline.Program
import ScriptSymbols.Proofs.Fixture.Lines
import ScriptSymbols.Proofs.Fixture.Symbols
import ScriptSymbols.Proofs.Text.Units
import ScriptSymbols.Proofs.Workspace.Definition
import ScriptSymbols.Proofs.Workspace.SymbolTree
import ScriptSymbols.Proofs.Buffer.Splice
import ScriptSymbols.Proofs.Disk.UriSource
import ScriptSymbols.Proofs.Text.Decoding
import ScriptSymbols.Proofs.Stats.SizeLimit
import ScriptSymbols.Proofs.Buffer.Columns
import ScriptSymbols.Proofs.Buffer.Lines
import ScriptSymbols.Proofs.Skeleton.NormalForm
import ScriptSymbols.Proofs.Skeleton.Indentation
import ScriptSymbols.Proofs.Disk.Collect
import ScriptSymbols.Proofs.Index.Bulk
import ScriptSymbols.Proofs.Skeleton.Values
import ScriptSymbols.Proofs.Index.Transaction
import ScriptSymbols.Proofs.Text.Boundaries
import ScriptSymbols.Proofs.Name.Cursor
import ScriptSymbols.Proofs.Text.Lowercase
import ScriptSymbols.Proofs.Name.Highlight
import ScriptSymbols.Proofs.Statement.Parameters
import ScriptSymbols.Proofs.Text.BadBytes
import ScriptSymbols.Proofs.Glob.Matching
import ScriptSymbols.Proofs.Stats.Arguments
import ScriptSymbols.Proofs.Report.Csv
import ScriptSymbols.Proofs.Skeleton.Nesting
import ScriptSymbols.Proofs.Text.TopLevel
