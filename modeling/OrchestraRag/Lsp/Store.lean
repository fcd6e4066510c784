import OrchestraRag.Library.Program
import OrchestraRag.Lsp.Document
import OrchestraRag.Lsp.Resolution

/-!
# The LSP store

An `LspStore` is a document store and a symbol index.  Its methods are programs over the
calls on the two, `LspOp`: each such call holds one mutex, and between two of them no lock
is held.

`openRows docs path` are the rows the index should have for a path: the flattening of the
symbols cached for it, none when it is not open.  The index is in step with the documents
when these are its rows at every path (`LspStore.InStep`).
-/

namespace OrchestraRag

/-- The documents and the index. -/
structure LspStore where
  docs : DocumentStore
  index : LspDb

/-! ### Atomic steps -/

/-- A call on the document store or on the index, under its mutex. -/
inductive LspOp where
  | docsOpen (path content : String) (version : Int64)
  | docsClose (path : String)
  | docsUpdate (path content : String) (version : Int64)
  | docsGet (path : String)
  | docsAll
  | indexReplace (path : String) (symbols : List CodeSymbol)
  | indexRemove (path : String)
  | indexClear

/-- What a call returns. -/
def LspAns : LspOp → Type
  | .docsOpen _ _ _ => Outcome String ℕ
  | .docsClose _ => Outcome String Bool
  | .docsUpdate _ _ _ => Outcome String ℕ
  | .docsGet _ => Outcome String (Option Document)
  | .docsAll => Outcome String (List Document)
  | .indexReplace _ _ => Outcome String ℕ
  | .indexRemove _ => Outcome String Unit
  | .indexClear => Outcome String Unit

/-- What a call does to the store. -/
def LspOp.Step (treeSitter : TreeSitter) : Semantics LspOp LspAns LspStore
  | .docsOpen path content version, s, x, s' =>
      s.docs.open_ treeSitter path content version = (x, s'.docs) ∧ s'.index = s.index
  | .docsClose path, s, x, s' => s.docs.close path = (x, s'.docs) ∧ s'.index = s.index
  | .docsUpdate path content version, s, x, s' =>
      s.docs.update treeSitter path content version = (x, s'.docs) ∧ s'.index = s.index
  | .docsGet path, s, x, s' => x = s.docs.get path ∧ s' = s
  | .docsAll, s, x, s' => s.docs.AllDocuments x ∧ s' = s
  | .indexReplace path symbols, s, x, s' =>
      SymbolIndex.replaceDocumentSymbols path symbols s.index = (x, s'.index) ∧ s'.docs = s.docs
  | .indexRemove path, s, x, s' =>
      SymbolIndex.removeDocument path s.index = (x, s'.index) ∧ s'.docs = s.docs
  | .indexClear, s, x, s' => SymbolIndex.clear s.index = (x, s'.index) ∧ s'.docs = s.docs

/-- A method of the store. -/
abbrev LspM (α : Type) : Type :=
  ExceptT (Failure String) (Program LspOp LspAns) α

namespace LspM

def docsOpen (path content : String) (version : Int64) : LspM ℕ :=
  ExceptT.mk (Program.call (LspOp.docsOpen path content version))

def docsClose (path : String) : LspM Bool :=
  ExceptT.mk (Program.call (LspOp.docsClose path))

def docsUpdate (path content : String) (version : Int64) : LspM ℕ :=
  ExceptT.mk (Program.call (LspOp.docsUpdate path content version))

def docsGet (path : String) : LspM (Option Document) :=
  ExceptT.mk (Program.call (LspOp.docsGet path))

def docsAll : LspM (List Document) :=
  ExceptT.mk (Program.call LspOp.docsAll)

def indexReplace (path : String) (symbols : List CodeSymbol) : LspM ℕ :=
  ExceptT.mk (Program.call (LspOp.indexReplace path symbols))

def indexRemove (path : String) : LspM Unit :=
  ExceptT.mk (Program.call (LspOp.indexRemove path))

def indexClear : LspM Unit :=
  ExceptT.mk (Program.call LspOp.indexClear)

end LspM

/-! ### Methods -/

namespace LspStore

/-- A store without documents on a given index. -/
def new (index : LspDb) : LspStore where
  docs := .new
  index := index

/-- Sync a document's cached symbols into the index. -/
def syncDocumentToIndex (path : String) : LspM Unit := do
  match ← LspM.docsGet path with
  | some doc => discard (LspM.indexReplace doc.path doc.symbols)
  | none => pure ()

/-- Open a document, parse its symbols, and index them; returns the number of symbols. -/
def openDocument (path content : String) (version : Int64) : LspM ℕ := do
  let count ← LspM.docsOpen path content version
  syncDocumentToIndex path
  pure count

/-- Close a document and remove its symbols from the index. -/
def closeDocument (path : String) : LspM Bool := do
  let removed ← LspM.docsClose path
  if removed then
    LspM.indexRemove path
  pure removed

/-- Update a document's content, parse its symbols again, and refresh the index. -/
def updateDocument (path content : String) (version : Int64) : LspM ℕ := do
  let count ← LspM.docsUpdate path content version
  syncDocumentToIndex path
  pure count

/-- Index documents one after another; returns `total` and the rows indexed. -/
def indexDocuments (total : ℕ) : List Document → LspM ℕ
  | [] => pure total
  | doc :: docs => do
      let count ← LspM.indexReplace doc.path doc.symbols
      indexDocuments (total + count) docs

/-- Rebuild the entire index from all open documents; returns the numbers of documents and of
symbols indexed. -/
def buildIndex : LspM (ℕ × ℕ) := do
  LspM.indexClear
  let allDocs ← LspM.docsAll
  let totalSymbols ← indexDocuments 0 allDocs
  pure (allDocs.length, totalSymbols)

end LspStore

/-- A call of a method. -/
inductive LspCall where
  | openDocument (path content : String) (version : Int64)
  | closeDocument (path : String)
  | updateDocument (path content : String) (version : Int64)
  | buildIndex

/-- What a method returns. -/
inductive LspReply where
  | symbols (count : ℕ)
  | closed (removed : Bool)
  | indexed (documents symbols : ℕ)
  deriving DecidableEq

namespace LspCall

/-- The method that is called. -/
def method : LspCall → LspM LspReply
  | .openDocument path content version =>
      LspReply.symbols <$> LspStore.openDocument path content version
  | .closeDocument path => LspReply.closed <$> LspStore.closeDocument path
  | .updateDocument path content version =>
      LspReply.symbols <$> LspStore.updateDocument path content version
  | .buildIndex => (fun r => LspReply.indexed r.1 r.2) <$> LspStore.buildIndex

/-- The call as a program. -/
def program (call : LspCall) : Program LspOp LspAns (Outcome String LspReply) :=
  call.method.run

/-- The path a call is about; rebuilding the index is about none. -/
def path? : LspCall → Option String
  | .openDocument path _ _ => some path
  | .closeDocument path => some path
  | .updateDocument path _ _ => some path
  | .buildIndex => none

end LspCall

/-! ### Rows of the open documents -/

/-- The rows of the symbols cached for a path. -/
def openRows (docs : Documents) (path : String) : List LspRow :=
  match docs.get path with
  | some doc => flatten path doc.symbols
  | none => []

theorem openRows_of_get {docs : Documents} {path : String} {doc : Document}
    (h : docs.get path = some doc) :
  openRows docs path = flatten path doc.symbols
  := by
  rw [openRows, h]

theorem openRows_of_get_none {docs : Documents} {path : String} (h : docs.get path = none) :
  openRows docs path = []
  := by
  rw [openRows, h]

theorem openRows_congr {docs docs' : Documents} {path : String}
    (h : docs'.get path = docs.get path) :
  openRows docs' path = openRows docs path
  := by
  rw [openRows, openRows, h]

theorem openRows_insert_self (docs : Documents) (doc : Document) :
  openRows (docs.insert doc) doc.path = flatten doc.path doc.symbols
  := openRows_of_get (docs.get_insert_self doc)

theorem openRows_insert_of_ne {docs : Documents} {doc : Document} {path : String}
    (h : path ≠ doc.path) :
  openRows (docs.insert doc) path = openRows docs path
  := openRows_congr (Documents.get_insert_of_ne h)

theorem openRows_remove_self (docs : Documents) (path : String) :
  openRows (docs.remove path) path = []
  := openRows_of_get_none (docs.get_remove_self path)

theorem openRows_remove_of_ne {docs : Documents} {path path' : String} (h : path' ≠ path) :
  openRows (docs.remove path) path' = openRows docs path'
  := openRows_congr (Documents.get_remove_of_ne h)

/-- The rows of documents in their order. -/
def rowsOf (docs : List Document) : List LspRow :=
  docs.flatMap (fun doc => flatten doc.path doc.symbols)

theorem rowsOf_cons (doc : Document) (docs : List Document) :
  rowsOf (doc :: docs) = flatten doc.path doc.symbols ++ rowsOf docs
  := List.flatMap_cons

theorem mem_rowsOf {docs : List Document} {row : LspRow} :
  row ∈ rowsOf docs ↔ ∃ doc ∈ docs, row ∈ flatten doc.path doc.symbols
  := List.mem_flatMap

namespace LspStore

/-- The rows of the index at a path are the ones of the document open there. -/
def InStepAt (s : LspStore) (path : String) : Prop :=
  rowsAt path s.index.tables = openRows s.docs.documents path

/-- The index is in step with the open documents. -/
def InStep (s : LspStore) : Prop :=
  ∀ path, s.InStepAt path

theorem inStep_new {index : LspDb} (h : index.tables = []) :
  (new index).InStep
  := by
  intro path
  rw [InStepAt, new, h]
  rfl

/-- The rows of all open documents. -/
def allOpenRows (s : LspStore) : List LspRow :=
  rowsOf s.docs.documents.values

theorem rowsAt_rowsOf_of_not_mem {path : String} {docs : List Document}
    (h : path ∉ docs.map Document.path) :
  rowsAt path (rowsOf docs) = []
  := by
  apply rowsAt_eq_nil
  intro row hrow
  obtain ⟨doc, hdoc, hrow⟩ := mem_rowsOf.mp hrow
  rw [documentPath_of_mem_flatten hrow]
  rintro rfl
  apply h (List.mem_map_of_mem hdoc)

/-- Among documents with different paths, the rows at the path of one are its own. -/
theorem rowsAt_rowsOf_of_mem {docs : List Document} (hnodup : (docs.map Document.path).Nodup)
    {doc : Document} (h : doc ∈ docs) :
  rowsAt doc.path (rowsOf docs) = flatten doc.path doc.symbols
  := by
  induction docs with
  | nil => cases h
  | cons d docs ih =>
      obtain ⟨hd, hdocs⟩ := List.nodup_cons.mp hnodup
      rw [rowsOf_cons, rowsAt_append]
      rcases List.mem_cons.mp h with rfl | h
      · rw [rowsAt_flatten_self, rowsAt_rowsOf_of_not_mem hd, List.append_nil]
      · have hne : doc.path ≠ d.path := by
          intro heq
          apply hd
          rw [← heq]
          apply List.mem_map_of_mem h
        rw [rowsAt_flatten_of_ne hne, List.nil_append, ih hdocs h]

/-- The rows of all documents, in any order, are at each path the ones of the document there. -/
theorem rowsAt_rowsOf_values {docs : Documents} {values : List Document}
    (h : values.Perm docs.values) (path : String) :
  rowsAt path (rowsOf values) = openRows docs path
  := by
  cases hget : docs.get path with
  | none =>
      rw [openRows_of_get_none hget]
      apply rowsAt_rowsOf_of_not_mem
      intro hmem
      obtain ⟨doc, hdoc, rfl⟩ := List.mem_map.mp hmem
      rw [Documents.mem_values.mp (h.mem_iff.mp hdoc)] at hget
      cases hget
  | some doc =>
      obtain rfl := Documents.path_of_get hget
      rw [openRows_of_get hget]
      have hnodup : (values.map Document.path).Nodup :=
        (h.map Document.path).nodup_iff.mpr docs.nodup_paths
      apply rowsAt_rowsOf_of_mem hnodup
      apply h.mem_iff.mpr (Documents.mem_values.mpr hget)

theorem rowsAt_allOpenRows (s : LspStore) (path : String) :
  rowsAt path s.allOpenRows = openRows s.docs.documents path
  := rowsAt_rowsOf_values (List.Perm.refl _) path

/-- An index in step has the rows of all open documents. -/
theorem InStep.perm {s : LspStore} (h : s.InStep) :
  s.index.tables.Perm s.allOpenRows
  := by
  apply Sql.perm_of_filter_key LspRow.documentPath
  intro path
  have hpath := h path
  rw [InStepAt, ← rowsAt_allOpenRows] at hpath
  rw [rowsAt, rowsAt] at hpath
  rw [hpath]

end LspStore

/-! ### What the calls on the documents do -/

namespace DocumentStore

variable {treeSitter : TreeSitter} {store store' : DocumentStore} {path content : String}
  {version : Int64}

/-- Opening a document stores it, or fails and leaves the documents. -/
theorem open_cases {x : Outcome String ℕ}
    (h : store.open_ treeSitter path content version = (x, store')) :
  (∃ doc, doc.path = path ∧ doc.content = content ∧ doc.version = version
      ∧ x = .ok doc.symbolCount ∧ store'.documents = store.documents.insert doc
      ∧ store.poisoned = false ∧ store'.poisoned = false
      ∧ (parseSymbols treeSitter content (detectLanguage path) store.extractor).1
        = .ok doc.symbols)
    ∨ ∃ e, x = .error e ∧ store'.documents = store.documents ∧ store'.poisoned = true
      ∧ (store.poisoned = true
        ∨ (parseSymbols treeSitter content (detectLanguage path) store.extractor).1.Panicked)
  := by
  rw [open_] at h
  split at h
  next hpoisoned =>
    cases h
    exact Or.inr ⟨_, rfl, rfl, hpoisoned, Or.inl hpoisoned⟩
  next hpoisoned =>
    rw [Bool.not_eq_true] at hpoisoned
    rw [Document.new] at h
    rcases hparse : parseSymbols treeSitter content (detectLanguage path) store.extractor with
      ⟨e | symbols, extractor⟩
    · simp only [hparse] at h
      cases h
      obtain rfl := parseSymbols_error hparse
      exact Or.inr ⟨_, rfl, rfl, rfl, Or.inr rfl⟩
    · simp only [hparse] at h
      cases h
      exact Or.inl ⟨_, rfl, rfl, rfl, rfl, rfl, hpoisoned, hpoisoned, rfl⟩

theorem close_cases {x : Outcome String Bool} (h : store.close path = (x, store')) :
  (x = .ok (store.documents.get path).isSome
      ∧ store'.documents = store.documents.remove path
      ∧ store.poisoned = false ∧ store'.poisoned = false)
    ∨ x = .error lockPoisoned ∧ store' = store ∧ store.poisoned = true
  := by
  rw [close] at h
  split at h
  next hpoisoned =>
    cases h
    exact Or.inr ⟨rfl, rfl, hpoisoned⟩
  next hpoisoned =>
    rw [Bool.not_eq_true] at hpoisoned
    cases h
    exact Or.inl ⟨rfl, rfl, hpoisoned, hpoisoned⟩

/-- Updating a document stores its new content and symbols, or fails; when it is not open
nothing changes, and when extraction panics the mutex is poisoned. -/
theorem update_cases {x : Outcome String ℕ}
    (h : store.update treeSitter path content version = (x, store')) :
  (∃ old doc, store.documents.get path = some old ∧ doc.path = path ∧ doc.content = content
      ∧ doc.version = version ∧ x = .ok doc.symbolCount
      ∧ store'.documents = store.documents.insert doc
      ∧ store.poisoned = false ∧ store'.poisoned = false
      ∧ (parseSymbols treeSitter content old.language store.extractor).1 = .ok doc.symbols)
    ∨ (∃ e, x = .error e ∧ store' = store
      ∧ (store.poisoned = true ∨ store.documents.get path = none))
    ∨ ∃ e old doc, x = .error e ∧ store.documents.get path = some old ∧ doc.path = path
      ∧ doc.content = content ∧ doc.version = version ∧ doc.symbols = old.symbols
      ∧ store'.documents = store.documents.insert doc
      ∧ store'.poisoned = true ∧ store.poisoned = false
      ∧ (parseSymbols treeSitter content old.language store.extractor).1.Panicked
  := by
  rw [update] at h
  split at h
  next hpoisoned =>
    cases h
    exact Or.inr (Or.inl ⟨_, rfl, rfl, Or.inl hpoisoned⟩)
  next hpoisoned =>
    rw [Bool.not_eq_true] at hpoisoned
    cases hget : store.documents.get path with
    | none =>
        simp only [hget] at h
        cases h
        exact Or.inr (Or.inl ⟨_, rfl, rfl, Or.inr rfl⟩)
    | some old =>
        have hpath := Documents.path_of_get hget
        simp only [hget, Document.update] at h
        rcases hparse : parseSymbols treeSitter content old.language store.extractor with
          ⟨e | symbols, extractor⟩
        · simp only [hparse] at h
          cases h
          obtain rfl := parseSymbols_error hparse
          have hdoc : { old with content := content, version := version }.path = path := hpath
          refine Or.inr (Or.inr ⟨_, old, _, rfl, rfl, hdoc, rfl, rfl, rfl, rfl, rfl, hpoisoned, ?_⟩)
          rw [hparse]
          rfl
        · simp only [hparse] at h
          cases h
          have hdoc : { old with content := content, version := version, symbols := symbols }.path
              = path := hpath
          refine Or.inl ⟨old, _, rfl, hdoc, rfl, rfl, rfl, rfl, hpoisoned, hpoisoned, ?_⟩
          rw [hparse]

end DocumentStore

/-! ### A sample document -/

/-- `mainSource`, open as `main.rs`. -/
def mainDocument : Document where
  path := "main.rs"
  content := mainSource
  version := 1
  symbols := [mainSymbol]
  language := some "rust"

/-- A store with one document, `mainSource` open as `main.rs`. -/
def openedMain (extractor : SymbolExtractor) : DocumentStore :=
  ⟨Documents.empty.insert mainDocument, extractor, false⟩

theorem get_openedMain (extractor : SymbolExtractor) :
  (openedMain extractor).documents.get "main.rs" = some mainDocument
  := Documents.get_insert_self _ mainDocument

/-- A fresh store opens `mainSource`. -/
theorem open_mainSource :
  ∃ extractor, extractor.parser.Coherent sampleTreeSitter
    ∧ DocumentStore.new.open_ sampleTreeSitter "main.rs" mainSource 1
      = (.ok 1, openedMain extractor)
  := by
  have hlanguage : detectLanguage "main.rs" = some "rust" := by decide
  have hnew : SymbolExtractor.new.parser.Coherent sampleTreeSitter :=
    ParserWrapper.coherent_new sampleTreeSitter
  obtain ⟨hextract, hcoherent⟩ :=
    SymbolExtractor.extractSymbols_eq_fresh hnew mainSource "rust"
  rw [extractFresh_mainSource] at hextract
  rcases hresult : SymbolExtractor.new.extractSymbols sampleTreeSitter mainSource "rust" with
    ⟨outcome, extractor⟩
  rw [hresult] at hextract hcoherent
  cases hextract
  use extractor, hcoherent
  simp only [DocumentStore.open_, DocumentStore.new, Document.new, hlanguage, parseSymbols, hresult]
  rfl

end OrchestraRag
