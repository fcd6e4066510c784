import OrchestraRag.Index.Tools
import OrchestraRag.Library.Overflow
import OrchestraRag.Memory.Tools

/-!
# The tools that search the index

`search` and `search_symbols`.  A searcher of Tantivy is a fixed snapshot of the index; what it
answers to a query is given by the functions of `Searcher`.  `IndexReader::search` ranks as many
hits as it may need, skips the offset, and filters by file type what is left.
-/

namespace OrchestraRag

/-! ### Searchers -/

/-- A field of the schema. -/
inductive IndexField where
  | path
  | content
  | language
  | symbols
  | metadata
  deriving DecidableEq

/-- A document as the index gives it back: the values of its stored fields. -/
abbrev StoredDocument : Type :=
  List (IndexField × String)

/-- The first value of a field. -/
def StoredDocument.getFirst (doc : StoredDocument) (field : IndexField) : Option String :=
  doc.lookup field

/-- Where a document is in a snapshot. -/
structure DocAddress where
  segmentOrd : UInt32
  docId : UInt32
  deriving DecidableEq

/-- A document that matches a query, with its score. -/
structure Hit (F : Type) where
  score : F
  address : DocAddress
  deriving DecidableEq

/-- A searcher: the queries it can parse, the best hits of a query, the snippets that it makes of
a document, and the documents. -/
structure Searcher (F : Type) where
  Query : Type
  parseQuery : List IndexField → String → Except String Query
  search : Query → UInt64 → Except String (List (Hit F))
  snippets : Query → IndexField → Except String (StoredDocument → String)
  doc : DocAddress → Except String StoredDocument

/-- `TopDocs::with_limit`, which asserts that the limit is not zero. -/
def TopDocs.withLimit (limit : UInt64) : Outcome String UInt64 :=
  if limit = 0 then .error .panicked else .ok limit

/-! ### The reader -/

/-- A single search result with path, score, snippets, and metadata. -/
structure SearchResult (F : Type) where
  path : String
  score : F
  snippets : List String
  lineNumbers : List UInt32
  metadata : String

/-- What is left of a text without what stands between `<` and `>`. -/
def stripTags : Bool → List Char → List Char
  | _, [] => []
  | inTag, c :: cs =>
      if c = '<' then stripTags true cs
      else if c = '>' then stripTags false cs
      else if inTag then stripTags inTag cs
      else c :: stripTags inTag cs

/-- Strip simple HTML tags from a string. -/
def stripHtmlTags (html : String) : String :=
  String.ofList (stripTags false html.toList)

/-- Compute approximate line numbers where snippet text appears in content. -/
def computeLineNumbers (content snippetHtml : String) : List UInt32 :=
  let plain := stripHtmlTags snippetHtml
  if plain = "" then []
  else
    let words := splitWhitespace plain
    (Utf8.lines content.toList).zipIdx.filterMap (fun (line, lineIdx) =>
      if words.any (fun word => 3 ≤ word.utf8ByteSize ∧ word.toList <:+: line)
      then some (.ofNat (lineIdx + 1))
      else none)

namespace IndexReader

/-- The path of a document. -/
def pathOf (doc : StoredDocument) : String :=
  (doc.getFirst .path).getD ""

/-- Whether a path ends with one of the file types; any does if none is given. -/
def matchesType (fileTypes : List String) (path : String) : Bool :=
  fileTypes = [] ∨ ∃ fileType ∈ fileTypes, ("." ++ fileType).toList <:+ path.toList

section Search

variable {F : Type} (build : Build) (searcher : Searcher F)

/-- The limit of the collector: room for the offset and the limit. -/
def topDocsLimit (limit offset : UInt64) : Outcome String UInt64 := do
  TopDocs.withLimit (← build.add offset limit)

/-- The hits that are not skipped and have one of the file types, with their documents. -/
def keptHits (offset : UInt64) (fileTypes : List String) (topDocs : List (Hit F)) :
    Outcome String (List (Hit F × StoredDocument)) :=
  topDocs.zipIdx.filterMapM (fun (hit, i) =>
    if i < offset.toNat then pure none
    else do
      let doc ← Outcome.ofResult ((searcher.doc hit.address).mapError
        ("failed to initialize Tantivy index: " ++ ·))
      if matchesType fileTypes (pathOf doc) then pure (some (hit, doc)) else pure none)

/-- The hits that a search returns, their total, and the snippets of their documents. -/
def searchHits (queryStr : String) (limit offset : UInt64) (fileTypes : List String) :
    Outcome String (List (Hit F × StoredDocument) × ℕ × (StoredDocument → String)) := do
  let query ← Outcome.ofResult ((searcher.parseQuery [.content, .symbols] queryStr).mapError
    ("search query error: failed to parse query: " ++ ·))
  let topLimit ← topDocsLimit build limit offset
  let topDocs ← Outcome.ofResult ((searcher.search query topLimit).mapError
    ("failed to initialize Tantivy index: " ++ ·))
  let total := topDocs.length
  let snippetHtml ← Outcome.ofResult ((searcher.snippets query .content).mapError
    ("failed to initialize Tantivy index: " ++ ·))
  let kept ← keptHits searcher offset fileTypes topDocs
  pure (kept, total, snippetHtml)

/-- The result that is shown for a hit. -/
def resultOf (snippetHtml : StoredDocument → String) : Hit F × StoredDocument → SearchResult F
  | (hit, doc) =>
      let html := snippetHtml doc
      { path := pathOf doc
        score := hit.score
        snippets := if html = "" then [] else [html]
        lineNumbers := computeLineNumbers ((doc.getFirst .content).getD "") html
        metadata := (doc.getFirst .metadata).getD "{}" }

/-- Search the index and return ranked results with snippets. -/
def search (queryStr : String) (limit offset : UInt64) (fileTypes : List String) :
    Outcome String (List (SearchResult F) × ℕ) := do
  let (kept, total, snippetHtml) ← searchHits build searcher queryStr limit offset fileTypes
  pure (kept.map (resultOf snippetHtml), total)

end Search

end IndexReader

/-! ### Handlers -/

section Handlers

variable {F : Type} [SingleFloat F] (build : Build) (searcher : Searcher F)

def SearchResult.toJson (result : SearchResult F) : Json :=
  .object (SortedMap.collect
    [("path", .string result.path),
      ("score", SingleFloat.toJson result.score),
      ("snippets", .array (result.snippets.map Json.string)),
      ("line_numbers", .array (result.lineNumbers.map (fun n => countToJson n.toNat))),
      ("metadata", .string result.metadata)])

def handleSearch (args : Json) : Outcome String Json := do
  let query ← requiredText args "query"
  let limit := optionalU64 args "limit" 10
  let offset := optionalU64 args "offset" 0
  let fileTypes := textArray args "file_types"
  let (results, total) ← IndexReader.search build searcher query limit offset fileTypes
  pure (.object (SortedMap.collect
    [("results", .array (results.map SearchResult.toJson)), ("total", countToJson total)]))

/-- A document that `search_symbols` finds. -/
def symbolResult (score : F) (doc : StoredDocument) : Json :=
  .object (SortedMap.collect
    [("path", .string (IndexReader.pathOf doc)),
      ("symbols", .string ((doc.getFirst .symbols).getD "")),
      ("language", .string ((doc.getFirst .language).getD "")),
      ("score", SingleFloat.toJson score)])

def handleSearchSymbols (args : Json) : Outcome String Json := do
  let query ← requiredText args "query"
  let limit := optionalU64 args "limit" 10
  let parsed ← Outcome.ofResult ((searcher.parseQuery [.symbols] query).mapError
    ("failed to parse query: " ++ ·))
  let topLimit ← TopDocs.withLimit limit
  let topDocs ← Outcome.ofResult (searcher.search parsed topLimit)
  let results ← topDocs.mapM (fun hit => do
    pure (symbolResult hit.score (← Outcome.ofResult (searcher.doc hit.address))))
  pure (.object (SortedMap.collect
    [("results", .array results), ("total", countToJson results.length)]))

end Handlers

end OrchestraRag
