import OrchestraRag.Index.Writer
import OrchestraRag.Parser.Extractor
import OrchestraRag.Protocol.Json

/-!
# The tools that write the index

`index_file`, `index_directory`, `delete_from_index` and `clear_index`.  The files that
`index_directory` finds are the answer of one step, the walk of the directory.
-/

namespace OrchestraRag

/-! ### Symbol names -/

mutual

/-- Recursively collect all symbol names. -/
def symbolNamesOf : CodeSymbol → List String
  | .mk name _ _ _ children => name :: symbolNames children

def symbolNames : List CodeSymbol → List String
  | [] => []
  | sym :: symbols => symbolNamesOf sym ++ symbolNames symbols

end

/-- Extract the symbol names of a content, for the symbols field; none when it cannot be
parsed. -/
def extractSymbolNamesForIndex (treeSitter : TreeSitter) (content language : String) :
    Outcome String String :=
  match SymbolExtractor.extractFresh treeSitter content language with
  | .ok symbols => .ok (" ".intercalate (symbolNames symbols))
  | .error (.err _) => .ok ""
  | .error .panicked => .error .panicked

/-! ### Arguments -/

/-- What a call needs from outside: the parsers, and how a JSON value is written as text. -/
structure IndexContext where
  treeSitter : TreeSitter
  jsonText : Json → String

/-- A text argument that is required. -/
def requiredText (args : Json) (field : String) : Outcome String String :=
  match (args.get field).bind Json.asStr with
  | some text => .ok text
  | none => .error (.err ("'" ++ field ++ "' is required"))

/-- The texts of an array argument. -/
def textArray (args : Json) (field : String) : List String :=
  (((args.get field).bind Json.asArray).getD []).filterMap Json.asStr

/-- The metadata of a document, as JSON text. -/
def metadataText (context : IndexContext) (args : Json) : String :=
  match args.get "metadata" with
  | some (.object fields) => context.jsonText (.object fields)
  | some (.string text) => text
  | _ => "{}"

/-! ### Handlers -/

/-- The document that a call of `index_file` is to index. -/
def indexFileDocument (context : IndexContext) (args : Json) : Outcome String IndexDocument := do
  let path ← requiredText args "path"
  let content ← requiredText args "content"
  let language := ((args.get "language").bind Json.asStr).getD "unknown"
  let metadata := metadataText context args
  let symbols ← extractSymbolNamesForIndex context.treeSitter content language
  pure { path, content, language, symbols, metadata }

def handleIndexFile (context : IndexContext) (args : Json) : IndexM Json := do
  let doc ← IndexM.ofOutcome (indexFileDocument context args)
  IndexM.ofResult (← IndexWriter.deleteDocument doc.path)
  IndexM.ofResult (← IndexWriter.addDocument doc.path doc.content doc.language doc.symbols
    doc.metadata)
  IndexM.ofResult (← IndexWriter.commit)
  IndexM.ofResult (← IndexReader.reload)
  pure (.object (SortedMap.collect [("success", .bool true), ("path", .string doc.path)]))

/-- Directories that are always excluded from indexing. -/
def defaultExcludes : List String :=
  ["node_modules", ".git", "target", "dist", "build", "vendor", "__pycache__", ".orchestra",
    ".next", "coverage", ".cache", "tmp", ".venv", "venv", ".tox", ".mypy_cache", ".pytest_cache"]

/-- What the loop over the collected files counts. -/
structure IndexCounts where
  indexed : ℕ
  errors : ℕ
  errorDetails : List String
  languages : List (String × ℕ)

namespace IndexCounts

def new : IndexCounts :=
  ⟨0, 0, [], []⟩

/-- Count an error; the details of the first 50 are kept. -/
def failed (counts : IndexCounts) (detail : String) : IndexCounts :=
  { counts with
    errors := counts.errors + 1
    errorDetails :=
      if counts.errorDetails.length < 50 then counts.errorDetails ++ [detail]
      else counts.errorDetails }

def added (counts : IndexCounts) (language : String) : IndexCounts :=
  { counts with
    indexed := counts.indexed + 1
    languages := SortedMap.insert language ((counts.languages.lookup language).getD 0 + 1)
      counts.languages }

end IndexCounts

/-- Add the document of a collected file; every 100 files, commit. -/
def addCollected (counts : IndexCounts) (file : CollectedFile) : IndexM IndexCounts := do
  match ← IndexWriter.addDocument file.path file.content file.language file.symbols "{}" with
  | .ok () =>
      let counts := counts.added file.language
      if counts.indexed % 100 = 0 then do
        match ← IndexWriter.commit with
        | .ok () => pure counts
        | .error e => pure (counts.failed
            ("batch commit at file " ++ toString counts.indexed ++ ": " ++ e))
      else pure counts
  | .error e => pure (counts.failed (file.path ++ ": " ++ e))

/-- Index a collected file: delete the document at its path, which may fail, then add the new
one. -/
def indexCollected (counts : IndexCounts) (file : CollectedFile) : IndexM IndexCounts := do
  let _ ← IndexWriter.deleteDocument file.path
  addCollected counts file

/-- Index the collected files one by one. -/
def indexFiles (counts : IndexCounts) : List CollectedFile → IndexM IndexCounts
  | [] => pure counts
  | file :: files => do
      let counts ← indexCollected counts file
      indexFiles counts files

/-- Index the files that a walk collected, commit, and answer. -/
def indexWalk (files : List CollectedFile) : IndexM Json := do
  let counts ← indexFiles .new files
  IndexM.named "final commit failed: " (← IndexWriter.commit)
  IndexM.named "reader reload failed: " (← IndexReader.reload)
  let durationMs : UInt64 ← ExceptT.lift (Program.call IndexOp.elapsedMs)
  let number (n : ℕ) : Json := .number (.posInt (.ofNat n))
  pure (.object (SortedMap.collect
    [("indexed", number counts.indexed),
      ("skipped", number (files.filter CollectedFile.skipped).length),
      ("errors", number counts.errors),
      ("duration_ms", .number (.posInt durationMs)),
      ("languages", .object (counts.languages.map (fun (language, n) => (language, number n)))),
      ("error_details", .array (counts.errorDetails.map Json.string))]))

/-- Whether a call of `index_directory` asks to clear the index first. -/
def clearFirst (args : Json) : Bool :=
  ((args.get "clear_first").bind Json.asBool).getD false

/-- The walk that a call of `index_directory` asks for: the root, the excluded names and the
extensions. -/
def walkArguments (args : Json) : Outcome String (String × List String × List String) := do
  let path ← requiredText args "path"
  let extensions := textArray args "extensions"
  let exclude := defaultExcludes ++ textArray args "exclude"
  let supported :=
    if extensions.isEmpty then LanguageRegistry.new.extensions.map Prod.fst else extensions
  pure (path, exclude, supported)

/-- Walk the directory in a blocking task, and index what it collects. -/
def indexTree (path : String) (exclude supported : List String) : IndexM Json := do
  let collected : Except String (List CollectedFile) ←
    ExceptT.lift (Program.call (IndexOp.collectFiles path exclude supported))
  let files ← IndexM.named "spawn_blocking failed: " collected
  indexWalk files

def handleIndexDirectory (args : Json) : IndexM Json := do
  let (path, exclude, supported) ← IndexM.ofOutcome (walkArguments args)
  if clearFirst args then do
    IndexM.named "clear_index failed: " (← IndexManager.clearIndex)
    indexTree path exclude supported
  else indexTree path exclude supported

def handleDeleteFromIndex (args : Json) : IndexM Json := do
  let path ← IndexM.ofOutcome (requiredText args "path")
  IndexM.ofResult (← IndexWriter.deleteDocument path)
  IndexM.ofResult (← IndexWriter.commit)
  IndexM.ofResult (← IndexReader.reload)
  pure (.object [("success", .bool true)])

def handleClearIndex (_ : Json) : IndexM Json := do
  IndexM.ofResult (← IndexManager.clearIndex)
  pure (.object [("success", .bool true)])

end OrchestraRag
