import CodeIndex.Main
import CodeIndex.Proofs.Sync.Effect
import CodeIndex.Proofs.Sync.Transaction
import CodeIndex.Proofs.Sync.Outcome
import CodeIndex.Proofs.Project.Discovery
import CodeIndex.Proofs.Store.Table
import CodeIndex.Proofs.Sync.Rows
import CodeIndex.Proofs.Text.Lines
import CodeIndex.Proofs.Text.Pattern
import CodeIndex.Proofs.Project.Path
import CodeIndex.Proofs.Source.Span
import CodeIndex.Proofs.Source.Declaration
import CodeIndex.Proofs.Source.Indent
import CodeIndex.Proofs.Source.Chunk
import CodeIndex.Proofs.Source.Nesting
import CodeIndex.Proofs.Sync.Distinct
import CodeIndex.Proofs.Text.Piece
import CodeIndex.Proofs.Text.Cut
import CodeIndex.Proofs.Source.Header
import CodeIndex.Proofs.Source.Arrow
import CodeIndex.Proofs.Source.Symbols
import CodeIndex.Proofs.Source.Layout
import CodeIndex.Proofs.Search.Symbols
import CodeIndex.Proofs.Search.Order
import CodeIndex.Proofs.Search.Fusion
import CodeIndex.Proofs.Sync.Names
import CodeIndex.Proofs.FullText.Current
import CodeIndex.Proofs.Sync.Isolation
import CodeIndex.Proofs.Search.Text
import CodeIndex.Proofs.Search.Tiers
import CodeIndex.Proofs.Search.Isolation
import CodeIndex.Proofs.FullText.Statistics
import CodeIndex.Proofs.Json.Written
import CodeIndex.Proofs.Sync.Counts
import CodeIndex.Proofs.Sync.Status
import CodeIndex.Proofs.Sync.Files
import CodeIndex.Proofs.Sync.Calls
import CodeIndex.Proofs.Sync.References
import CodeIndex.Proofs.Sync.Again
import CodeIndex.Proofs.Project.Confinement
import CodeIndex.Proofs.Source.Braces
import CodeIndex.Proofs.Text.OneLine
import CodeIndex.Proofs.Source.Slices
import CodeIndex.Proofs.Search.Ties
import CodeIndex.Proofs.Text.Blank
import CodeIndex.Proofs.Text.Bytes
import CodeIndex.Proofs.Text.Like
import CodeIndex.Proofs.FullText.Excerpt
import CodeIndex.Proofs.Search.Containing
import CodeIndex.Proofs.Search.Provenance
import CodeIndex.Proofs.Search.Scores
import CodeIndex.Proofs.Search.Disabled
import CodeIndex.Proofs.Source.Precedence
import CodeIndex.Proofs.Project.Overlap
import CodeIndex.Proofs.Source.Marks
import CodeIndex.Proofs.FullText.Query
import CodeIndex.Proofs.Search.Similar
import CodeIndex.Proofs.Sync.Statements
import CodeIndex.Proofs.Text.Places
import CodeIndex.Proofs.Source.Extent
import CodeIndex.Proofs.Source.Starts
import CodeIndex.Proofs.Sync.Keys
