import OrchestraRag.Protocol.Server
import OrchestraRag.Lsp.Service
import OrchestraRag.Lsp.Concurrent
import OrchestraRag.Lsp.Sequential
import OrchestraRag.Lsp.Restart
import OrchestraRag.Lsp.Failure
import OrchestraRag.Lsp.Versions
import OrchestraRag.Memory.Isolation
import OrchestraRag.Memory.Failure
import OrchestraRag.Memory.Keyed
import OrchestraRag.Memory.Filter
import OrchestraRag.Memory.HashOrder
import OrchestraRag.Memory.Content
import OrchestraRag.Memory.Orphans
import OrchestraRag.Index.Concurrent
import OrchestraRag.Index.Failure
import OrchestraRag.Index.Workspace
import OrchestraRag.Protocol.Stream
import OrchestraRag.Protocol.RoundTrip
import OrchestraRag.Lsp.Columns
import OrchestraRag.Lsp.Completion
import OrchestraRag.Lsp.Hover
import OrchestraRag.Library.Trimming
import OrchestraRag.Lsp.Comments
import OrchestraRag.Lsp.Delimiters
import OrchestraRag.Memory.Acknowledged
import OrchestraRag.Index.Search
import OrchestraRag.Library.Paging
import OrchestraRag.Index.Paging
import OrchestraRag.Index.Limits
import OrchestraRag.Parser.Exports
import OrchestraRag.Parser.Impls
import OrchestraRag.Parser.Caching
import OrchestraRag.Parser.Containers
import OrchestraRag.Parser.Declared
import OrchestraRag.Memory.Budget
import OrchestraRag.Memory.Merge
import OrchestraRag.Memory.Evidence
import OrchestraRag.Memory.Recency
import OrchestraRag.Memory.TopSimilar
import OrchestraRag.Index.ProjectFilter
import OrchestraRag.Library.JsonText
import OrchestraRag.Library.Like
import OrchestraRag.Memory.Tags
import OrchestraRag.Memory.Keywords
import OrchestraRag.Lsp.WorkspaceSymbols
import OrchestraRag.Library.Nesting
import OrchestraRag.Parser.Nested
import OrchestraRag.Library.Operations
import OrchestraRag.Library.Tally
import OrchestraRag.Index.Batching
import OrchestraRag.Index.Directory
import OrchestraRag.Index.Reindex
import OrchestraRag.Index.Detection
import OrchestraRag.Parser.Filter
import OrchestraRag.Lsp.Counts
import OrchestraRag.Index.Snippets
import OrchestraRag.Lsp.Cursor
import OrchestraRag.Memory.Counters
import OrchestraRag.Library.Calendar
import OrchestraRag.Library.Numerals
import OrchestraRag.Memory.Timestamps
import OrchestraRag.Memory.Chronology
import OrchestraRag.Library.Linearization
import OrchestraRag.Memory.Linearizable
import OrchestraRag.Memory.History
import OrchestraRag.Memory.Changes
import OrchestraRag.Memory.Pages
import OrchestraRag.Memory.Interference
import OrchestraRag.Memory.Durable
import OrchestraRag.Library.Newest
import OrchestraRag.Memory.Summary
import OrchestraRag.Library.Known
import OrchestraRag.Index.Refinement
import OrchestraRag.Library.Cosine
import OrchestraRag.Memory.Scores
import OrchestraRag.Parser.Positions
import OrchestraRag.Parser.Imports
import OrchestraRag.Lsp.Diagnostics
import OrchestraRag.Lsp.Tools
import OrchestraRag.Lsp.Refinement
import OrchestraRag.Library.Latest
import OrchestraRag.Protocol.Registry
import OrchestraRag.Protocol.Session
import OrchestraRag.Library.Projection
import OrchestraRag.Protocol.Connection
import OrchestraRag.Memory.Served
import OrchestraRag.Index.Languages
