import Mathlib.Data.List.AList
import OrchestraRag.Parser.Extractor

/-!
# Open documents

A `DocumentStore` holds the open documents by path, each with the symbols extracted from
it, behind a mutex shared with the extractor.  When extraction panics the mutex is
poisoned, and every later call on the store fails.

`Documents` is the map itself: every document in it is stored under its own path.
-/

namespace OrchestraRag

/-- A document tracked by the store. -/
structure Document where
  path : String
  content : String
  version : Int64
  symbols : List CodeSymbol
  language : Option String

/-! ### The map -/

/-- Documents by path, in the order in which the hash map yields them. -/
structure Documents where
  map : AList (fun _ : String => Document)
  keyed : ∀ path doc, map.lookup path = some doc → doc.path = path

namespace Documents

def empty : Documents where
  map := ∅
  keyed := by
    intro path doc h
    cases h

def get (docs : Documents) (path : String) : Option Document :=
  docs.map.lookup path

/-- Store a document under its path. -/
def insert (docs : Documents) (doc : Document) : Documents where
  map := docs.map.insert doc.path doc
  keyed := by
    intro path doc' h
    by_cases hpath : path = doc.path
    · rw [hpath, AList.lookup_insert] at h
      cases h
      apply hpath.symm
    · rw [AList.lookup_insert_ne hpath] at h
      apply docs.keyed path doc' h

def remove (docs : Documents) (path : String) : Documents where
  map := docs.map.erase path
  keyed := by
    intro path' doc h
    by_cases hpath : path' = path
    · rw [hpath, AList.lookup_erase] at h
      cases h
    · rw [AList.lookup_erase_ne hpath] at h
      apply docs.keyed path' doc h

/-- All documents. -/
def values (docs : Documents) : List Document :=
  docs.map.entries.map Sigma.snd

@[simp]
theorem get_empty (path : String) :
  empty.get path = none
  := rfl

@[simp]
theorem get_insert_self (docs : Documents) (doc : Document) :
  (docs.insert doc).get doc.path = some doc
  := AList.lookup_insert _

theorem get_insert_of_ne {docs : Documents} {doc : Document} {path : String}
    (h : path ≠ doc.path) :
  (docs.insert doc).get path = docs.get path
  := AList.lookup_insert_ne h

@[simp]
theorem get_remove_self (docs : Documents) (path : String) :
  (docs.remove path).get path = none
  := AList.lookup_erase _ _

theorem get_remove_of_ne {docs : Documents} {path path' : String} (h : path' ≠ path) :
  (docs.remove path).get path' = docs.get path'
  := AList.lookup_erase_ne h

theorem path_of_get {docs : Documents} {path : String} {doc : Document}
    (h : docs.get path = some doc) :
  doc.path = path
  := docs.keyed path doc h

/-- The values of the map are the documents under their paths. -/
theorem mem_values {docs : Documents} {doc : Document} :
  doc ∈ docs.values ↔ docs.get doc.path = some doc
  := by
  rw [values, List.mem_map]
  constructor
  · rintro ⟨⟨path, doc'⟩, hmem, rfl⟩
    have hget : docs.get path = some doc' := AList.mem_lookup_iff.mpr hmem
    rw [docs.path_of_get hget]
    apply hget
  · intro h
    exact ⟨⟨doc.path, doc⟩, AList.mem_lookup_iff.mp h, rfl⟩

/-- No two documents have the same path. -/
theorem nodup_paths (docs : Documents) :
  (docs.values.map Document.path).Nodup
  := by
  have hkeys : docs.values.map Document.path = docs.map.keys := by
    rw [values, AList.keys, List.keys, List.map_map]
    apply List.map_congr_left
    intro e hmem
    apply docs.path_of_get (AList.mem_lookup_iff.mpr hmem)
  rw [hkeys]
  apply docs.map.keys_nodup

end Documents

/-! ### The store -/

/-- Detect language string from file path extension. -/
def detectLanguage (path : String) : Option String :=
  LanguageRegistry.new.detectLanguage path

section Extraction

variable (treeSitter : TreeSitter)

/-- Extract symbols; without a language, or when extraction fails, there are none. -/
def parseSymbols (content : String) (language : Option String) (extractor : SymbolExtractor) :
    Outcome String (List CodeSymbol) × SymbolExtractor :=
  match language with
  | none => (.ok [], extractor)
  | some lang =>
      match extractor.extractSymbols treeSitter content lang with
      | (.ok symbols, extractor) => (.ok symbols, extractor)
      | (.error (.err _), extractor) => (.ok [], extractor)
      | (.error .panicked, extractor) => (.error .panicked, extractor)

variable {treeSitter} in
/-- Only a panic leaves no symbols to store. -/
theorem parseSymbols_error {content : String} {language : Option String}
    {extractor extractor' : SymbolExtractor} {e : Failure String}
    (h : parseSymbols treeSitter content language extractor = (.error e, extractor')) :
  e = .panicked
  := by
  cases language with
  | none => cases h
  | some lang =>
      rw [parseSymbols] at h
      split at h
      · cases h
      · cases h
      · cases h
        rfl

/-- Create a new document and eagerly parse its symbols. -/
def Document.new (path content : String) (version : Int64) (extractor : SymbolExtractor) :
    Outcome String Document × SymbolExtractor :=
  let language := detectLanguage path
  match parseSymbols treeSitter content language extractor with
  | (.ok symbols, extractor) => (.ok { path, content, version, symbols, language }, extractor)
  | (.error e, extractor) => (.error e, extractor)

/-- Update the document content and extract its symbols again; on a panic the content is
new and the symbols are old. -/
def Document.update (doc : Document) (content : String) (version : Int64)
    (extractor : SymbolExtractor) : Outcome String Unit × Document × SymbolExtractor :=
  let doc := { doc with content := content, version := version }
  match parseSymbols treeSitter content doc.language extractor with
  | (.ok symbols, extractor) => (.ok (), { doc with symbols := symbols }, extractor)
  | (.error e, extractor) => (.error e, doc, extractor)

end Extraction

/-- Number of symbols cached for a document. -/
def Document.symbolCount (doc : Document) : ℕ :=
  doc.symbols.length

/-- The open documents and the extractor, behind a mutex. -/
structure DocumentStore where
  documents : Documents
  extractor : SymbolExtractor
  poisoned : Bool

namespace DocumentStore

def new : DocumentStore where
  documents := .empty
  extractor := .new
  poisoned := false

/-- The error of a call that finds the mutex poisoned. -/
def lockPoisoned : Failure String :=
  .err "lock poisoned: poisoned lock: another task failed inside"

section Extraction

variable (treeSitter : TreeSitter)

/-- Open (or re-open) a document at the given path. -/
def open_ (store : DocumentStore) (path content : String) (version : Int64) :
    Outcome String ℕ × DocumentStore :=
  if store.poisoned then (.error lockPoisoned, store)
  else
    match Document.new treeSitter path content version store.extractor with
    | (.ok doc, extractor) =>
        (.ok doc.symbolCount,
          { store with documents := store.documents.insert doc, extractor := extractor })
    | (.error e, extractor) =>
        (.error e, { store with extractor := extractor, poisoned := true })

/-- Close a document; says whether it was open. -/
def close (store : DocumentStore) (path : String) : Outcome String Bool × DocumentStore :=
  if store.poisoned then (.error lockPoisoned, store)
  else
    (.ok (store.documents.get path).isSome,
      { store with documents := store.documents.remove path })

/-- Update a document's content and parse its symbols again. -/
def update (store : DocumentStore) (path content : String) (version : Int64) :
    Outcome String ℕ × DocumentStore :=
  if store.poisoned then (.error lockPoisoned, store)
  else
    match store.documents.get path with
    | none => (.error (.err ("document not open: " ++ path)), store)
    | some doc =>
        match doc.update treeSitter content version store.extractor with
        | (.ok (), doc, extractor) =>
            (.ok doc.symbolCount,
              { store with documents := store.documents.insert doc, extractor := extractor })
        | (.error e, doc, extractor) =>
            (.error e,
              { store with
                documents := store.documents.insert doc
                extractor := extractor
                poisoned := true })

end Extraction

/-- Get a snapshot of a document. -/
def get (store : DocumentStore) (path : String) : Outcome String (Option Document) :=
  if store.poisoned then .error lockPoisoned else .ok (store.documents.get path)

/-- Snapshots of all documents, in any order. -/
def AllDocuments (store : DocumentStore) (answer : Outcome String (List Document)) : Prop :=
  if store.poisoned then answer = .error lockPoisoned
  else ∃ docs, answer = .ok docs ∧ docs.Perm store.documents.values

theorem AllDocuments.ok {store : DocumentStore} {answer : Outcome String (List Document)}
    (h : store.AllDocuments answer) (hpoisoned : store.poisoned = false) :
  ∃ docs, answer = .ok docs ∧ docs.Perm store.documents.values
  := by
  rw [AllDocuments, hpoisoned] at h
  apply h

theorem AllDocuments.error {store : DocumentStore} {answer : Outcome String (List Document)}
    (h : store.AllDocuments answer) (hpoisoned : store.poisoned = true) :
  answer = .error lockPoisoned
  := by
  rw [AllDocuments, hpoisoned] at h
  apply h

end DocumentStore

end OrchestraRag
