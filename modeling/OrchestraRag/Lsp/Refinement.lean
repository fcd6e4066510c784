import Mathlib.Logic.Function.Basic
import OrchestraRag.Library.Trace
import OrchestraRag.Lsp.Definition
import OrchestraRag.Lsp.Service
import OrchestraRag.Lsp.Tools
import OrchestraRag.Lsp.WorkspaceSymbols

/-!
# What the LSP tools are for

The store is a map from paths to open texts (`LspView`).  Symbols, rows of the index, hover texts,
diagnostics and completions all come from these texts.  Tools that run one after another answer as
the map does (`lsp_refines`), also after a text that cannot be cut has poisoned the documents; the
index then still answers from the texts that were open.
-/

namespace OrchestraRag

open Sql

/-! ### The map -/

/-- The text of an open document. -/
structure OpenText where
  content : String
  version : Int64

/-- The open texts by path, and whether a text poisoned the documents. -/
structure LspView where
  texts : String → Option OpenText
  poisoned : Bool

namespace OpenText

variable (treeSitter : TreeSitter)

/-- The symbols that a new extractor finds in the text at a path; none when it panics. -/
def symbols (path : String) (text : OpenText) : List CodeSymbol :=
  match freshSymbols treeSitter text.content (detectLanguage path) with
  | .ok symbols => symbols
  | .error _ => []

/-- The document of the text at a path. -/
def document (path : String) (text : OpenText) : Document where
  path := path
  content := text.content
  version := text.version
  symbols := text.symbols treeSitter path
  language := detectLanguage path

end OpenText

namespace LspView

variable (treeSitter : TreeSitter)

/-- Nothing is open. -/
def empty : LspView where
  texts _ := none
  poisoned := false

def document (view : LspView) (path : String) : Option Document :=
  (view.texts path).map (OpenText.document treeSitter path)

/-- The documents are those that are open, in some order. -/
structure Lists (view : LspView) (docs : List Document) : Prop where
  nodup : (docs.map Document.path).Nodup
  mem : ∀ doc, doc ∈ docs ↔ view.document treeSitter doc.path = some doc

/-- The rows are those of the open texts, in some order for each of them. -/
def Rows (view : LspView) (rows : List LspRow) : Prop :=
  ∀ path, rowsAt path rows
    = ((view.document treeSitter path).map (fun doc => flatten path doc.symbols)).getD []

def set (view : LspView) (path : String) (text : OpenText) : LspView :=
  { view with texts := Function.update view.texts path (some text) }

def erase (view : LspView) (path : String) : LspView :=
  { view with texts := Function.update view.texts path none }

/-- A text was given that cannot be cut. -/
def poison (view : LspView) : LspView :=
  { view with poisoned := true }

/-! ### Answers -/

/-- What giving a text to a path answers and leaves. -/
def Gives (path content : String) (version : Int64) (done : String) (view : LspView)
    (x : Outcome String Json) (view' : LspView) : Prop :=
  match freshSymbols treeSitter content (detectLanguage path) with
  | .ok symbols =>
      x = .ok (LspRequest.textAnswer done symbols.length) ∧ view' = view.set path ⟨content, version⟩
  | .error e => x = .error e ∧ view' = view.poison

/-- The answer is `x`, or fails on documents that are poisoned. -/
def Unless (view : LspView) (x y : Outcome String Json) : Prop :=
  x = if view.poisoned then .error DocumentStore.lockPoisoned else y

variable (context : LspContext)

/-- What a request may answer and leave. -/
def Answers (view : LspView) : LspRequest → Outcome String Json → LspView → Prop
  | .openDocument path content version, x, view' =>
      if view.poisoned then x = .error DocumentStore.lockPoisoned ∧ view' = view
      else view.Gives context.treeSitter path content version "opened" x view'
  | .updateDocument path content version, x, view' =>
      if view.poisoned then x = .error DocumentStore.lockPoisoned ∧ view' = view
      else
        match view.texts path with
        | none => x = .error (.err ("document not open: " ++ path)) ∧ view' = view
        | some _ => view.Gives context.treeSitter path content version "updated" x view'
  | .closeDocument path, x, view' =>
      if view.poisoned then x = .error DocumentStore.lockPoisoned ∧ view' = view
      else x = .ok (LspRequest.closedAnswer (view.texts path).isSome) ∧ view' = view.erase path
  | .buildIndex, x, view' =>
      if view.poisoned then
        x = .error DocumentStore.lockPoisoned ∧ view' = { view with texts := fun _ => none }
      else
        view' = view ∧ ∃ docs, view.Lists context.treeSitter docs
          ∧ x = .ok (LspRequest.indexedAnswer (docs.length, (rowsOf docs).length))
  | .hover path line col, x, view' =>
      view' = view ∧ view.Unless x
        (.ok (LspRequest.hoverAnswer ((view.document context.treeSitter path).bind
          (fun doc => hoverAt doc.symbols doc.content line col))))
  | .diagnostics path, x, view' =>
      view' = view ∧ view.Unless x
        (.ok (LspRequest.diagnosticsAnswer
          (((view.document context.treeSitter path).bind (fun doc => doc.language.map
            (collectParseDiagnostics context.flags context.treeSitter doc.content))).getD [])))
  | .complete path line col prefixOverride, x, view' =>
      view' = view ∧ ∃ docs, (view.poisoned = false → view.Lists context.treeSitter docs)
        ∧ view.Unless x (.ok (LspRequest.completionsAnswer
          (OrchestraRag.complete (docs.map Document.symbols)
            (prefixOverride.getD (((view.document context.treeSitter path).map (fun doc =>
              wordBeforeCursor context.isAlphanumeric doc.content line col)).getD "")))))
  | .gotoDefinition path line _, x, view' =>
      view' = view ∧ ∃ rows, view.Rows context.treeSitter rows
        ∧ x = .ok (LspRequest.definitionAnswer
          ((SymbolIndex.nameAt context.scan path line rows).bind (fun name =>
            (SymbolIndex.definitionOf context.scan path name rows).map LspRow.location)))
  | .findReferences path line _, x, view' =>
      view' = view ∧ ∃ rows, view.Rows context.treeSitter rows
        ∧ x = .ok (LspRequest.referencesAnswer
          (((SymbolIndex.nameAt context.scan path line rows).map (fun name =>
            SymbolIndex.referencesOf context.scan name rows)).getD [] |>.map LspRow.location))
  | .workspaceSymbols query, x, view' =>
      view' = view ∧ ∃ rows, view.Rows context.treeSitter rows
        ∧ x = if maxLikePatternLength < (around query).utf8ByteSize ∧ rows ≠ [] then
            .error (sqlFailure "search_symbols" patternTooComplex)
          else
            .ok (LspRequest.symbolsAnswer (((context.scan.orderBy byPathAndLine
              (rows.filter (fun row => like (around query) row.name))).take 100).map
                LspRow.location))

/-- What a tool may answer and leave. -/
def Handles (call : LspTool × Json) (view : LspView) (x : Except String Json) (view' : LspView) :
    Prop :=
  match call.1.request call.2 with
  | .error e => x = .error e ∧ view' = view
  | .ok request => ∃ r, view.Answers context request r view' ∧ x = context.joined r

end LspView

/-! ### Agreement -/

/-- The store shows the open texts, and when no text poisoned the documents it holds them. -/
structure LspStore.Shows (treeSitter : TreeSitter) (s : LspStore) (view : LspView) : Prop where
  poisoned : s.docs.poisoned = view.poisoned
  documents : view.poisoned = false →
    ∀ path, s.docs.documents.get path = view.document treeSitter path
  coherent : view.poisoned = false → s.docs.extractor.parser.Coherent treeSitter
  rows : view.Rows treeSitter s.index.tables
  reliable : s.index.Reliable

namespace LspView

variable {treeSitter : TreeSitter} {view : LspView} {path path' : String}

theorem texts_set_self (view : LspView) (path : String) (text : OpenText) :
  (view.set path text).texts path = some text
  := Function.update_self ..

theorem texts_set_of_ne (h : path' ≠ path) (text : OpenText) :
  (view.set path text).texts path' = view.texts path'
  := Function.update_of_ne h ..

theorem texts_erase_self (view : LspView) (path : String) :
  (view.erase path).texts path = none
  := Function.update_self ..

theorem texts_erase_of_ne (h : path' ≠ path) :
  (view.erase path).texts path' = view.texts path'
  := Function.update_of_ne h ..

theorem document_set_self (view : LspView) (path : String) (text : OpenText) :
  (view.set path text).document treeSitter path = some (text.document treeSitter path)
  := by
  rw [document, texts_set_self, Option.map_some]

theorem document_set_of_ne (h : path' ≠ path) (text : OpenText) :
  (view.set path text).document treeSitter path' = view.document treeSitter path'
  := by
  rw [document, texts_set_of_ne h, document]

theorem document_erase_self (view : LspView) (path : String) :
  (view.erase path).document treeSitter path = none
  := by
  rw [document, texts_erase_self, Option.map_none]

theorem document_erase_of_ne (h : path' ≠ path) :
  (view.erase path).document treeSitter path' = view.document treeSitter path'
  := by
  rw [document, texts_erase_of_ne h, document]

/-- Rows of open texts in which those of one document are replaced. -/
theorem Rows.set {rows : List LspRow} (h : view.Rows treeSitter rows) (path : String)
    (text : OpenText) :
  (view.set path text).Rows treeSitter
    (deleteRows path rows ++ flatten path (text.document treeSitter path).symbols)
  := by
  intro path'
  rw [rowsAt_append]
  by_cases hpath : path' = path
  · rw [hpath, rowsAt_deleteRows_self, rowsAt_flatten_self, document_set_self, List.nil_append]
    rfl
  · rw [rowsAt_deleteRows_of_ne hpath, rowsAt_flatten_of_ne hpath, document_set_of_ne hpath,
      List.append_nil]
    apply h path'

theorem Rows.erase {rows : List LspRow} (h : view.Rows treeSitter rows) (path : String) :
  (view.erase path).Rows treeSitter (deleteRows path rows)
  := by
  intro path'
  by_cases hpath : path' = path
  · rw [hpath, rowsAt_deleteRows_self, document_erase_self]
    rfl
  · rw [rowsAt_deleteRows_of_ne hpath, document_erase_of_ne hpath]
    apply h path'

theorem Rows.erase_of_none {rows : List LspRow} (h : view.Rows treeSitter rows)
    (hnone : view.texts path = none) :
  (view.erase path).Rows treeSitter rows
  := by
  have hsame : view.erase path = view := by
    have htexts : Function.update view.texts path none = view.texts := by
      rw [← hnone]
      apply Function.update_eq_self
    rw [LspView.erase, htexts]
  rw [hsame]
  apply h

end LspView

namespace LspStore

variable {treeSitter : TreeSitter} {s s' : LspStore} {view : LspView}

theorem shows_new {index : LspDb} (hempty : index.tables = []) (hreliable : index.Reliable) :
  (new index).Shows treeSitter .empty
  := by
  constructor
  · rfl
  · intro _ path
    rfl
  · intro _
    apply ParserWrapper.coherent_new
  · intro path
    rw [new, hempty]
    rfl
  · apply hreliable

section Shows

variable (h : s.Shows treeSitter view)

include h

theorem Shows.sound (hopen : view.poisoned = false) :
  s.docs.Sound treeSitter
  := ⟨h.coherent hopen, h.poisoned.trans hopen⟩

/-- The documents of the store are those of the open texts. -/
theorem Shows.lists (hopen : view.poisoned = false) {docs : List Document}
    (hdocs : docs.Perm s.docs.documents.values) :
  view.Lists treeSitter docs
  := by
  constructor
  · apply (hdocs.map Document.path).nodup_iff.mpr s.docs.documents.nodup_paths
  · intro doc
    rw [hdocs.mem_iff, Documents.mem_values, h.documents hopen]

/-- The rows of all documents are those of the open texts. -/
theorem Shows.rows_rowsOf (hopen : view.poisoned = false) {docs : List Document}
    (hdocs : docs.Perm s.docs.documents.values) :
  view.Rows treeSitter (rowsOf docs)
  := by
  intro path
  rw [rowsAt_rowsOf_values hdocs, openRows, h.documents hopen]
  cases view.document treeSitter path with
  | none => rfl
  | some doc => rfl

/-- A store that does not change its documents and rows shows what it showed. -/
theorem Shows.of_same (hdocs : s'.docs = s.docs) (hrows : view.Rows treeSitter s'.index.tables)
    (hreliable : s'.index.Reliable) :
  s'.Shows treeSitter view
  := by
  constructor
  · rw [hdocs]
    apply h.poisoned
  · rw [hdocs]
    apply h.documents
  · rw [hdocs]
    apply h.coherent
  · apply hrows
  · apply hreliable

/-- A store whose documents are poisoned still shows the rows. -/
theorem Shows.poison (hpoisoned : s'.docs.poisoned = true) (hindex : s'.index = s.index) :
  s'.Shows treeSitter view.poison
  := by
  constructor
  · apply hpoisoned
  · rintro ⟨⟩
  · rintro ⟨⟩
  · rw [hindex]
    apply h.rows
  · rw [hindex]
    apply h.reliable

/-- Storing a text and replacing its rows shows it. -/
theorem Shows.set {path : String} {text : OpenText} (hopen : view.poisoned = false)
    (hdocs : s'.docs.documents = s.docs.documents.insert (text.document treeSitter path))
    (hsound : s'.docs.Sound treeSitter)
    (htables : s'.index.tables = deleteRows path s.index.tables
      ++ flatten path (text.document treeSitter path).symbols)
    (hreliable : s'.index.Reliable) :
  s'.Shows treeSitter (view.set path text)
  := by
  constructor
  · rw [hsound.notPoisoned]
    apply hopen.symm
  · intro _ path'
    rw [hdocs]
    by_cases hpath : path' = path
    · rw [hpath, LspView.document_set_self]
      apply Documents.get_insert_self _ (text.document treeSitter path)
    · rw [Documents.get_insert_of_ne hpath, LspView.document_set_of_ne hpath,
        h.documents hopen]
  · intro _
    apply hsound.coherent
  · rw [htables]
    apply h.rows.set
  · apply hreliable

/-- Removing a document and its rows shows it no longer. -/
theorem Shows.erase {path : String} (hopen : view.poisoned = false)
    (hdocs : s'.docs.documents = s.docs.documents.remove path)
    (hsound : s'.docs.Sound treeSitter)
    (hrows : (view.erase path).Rows treeSitter s'.index.tables)
    (hreliable : s'.index.Reliable) :
  s'.Shows treeSitter (view.erase path)
  := by
  constructor
  · rw [hsound.notPoisoned]
    apply hopen.symm
  · intro _ path'
    rw [hdocs]
    by_cases hpath : path' = path
    · rw [hpath, LspView.document_erase_self, Documents.get_remove_self]
    · rw [Documents.get_remove_of_ne hpath, LspView.document_erase_of_ne hpath,
        h.documents hopen]
  · intro _
    apply hsound.coherent
  · apply hrows
  · apply hreliable

end Shows

end LspStore

/-! ### Requests that set texts -/

section Requests

variable {context : LspContext} {s s' : LspStore} {view : LspView} {path content : String}
  {version : Int64}

/-- Mapping what a method returns maps what it ends with. -/
theorem LspContext.ends_map {α β : Type} {m : LspM α} {f : α → β} {x : Outcome String β} :
  context.Ends (f <$> m) s x s' ↔ ∃ r, context.Ends m s r s' ∧ x = r.map f
  := by
  rw [map_eq_pure_bind]
  apply Program.exec_fallible_bind.trans
  constructor
  · rintro (⟨a, s₁, h, hret⟩ | ⟨e, rfl, h⟩)
    · obtain ⟨rfl, rfl⟩ := Program.exec_ret.mp hret
      exact ⟨.ok a, h, rfl⟩
    · exact ⟨.error e, h, rfl⟩
  · rintro ⟨e | a, h, rfl⟩
    · exact Or.inr ⟨e, rfl, h⟩
    · exact Or.inl ⟨a, s', h, Program.exec_ret.mpr ⟨rfl, rfl⟩⟩

/-- Syncing a document that is open writes its rows. -/
theorem exec_syncing_sound {treeSitter : TreeSitter} {count : ℕ} {r : Outcome String LspReply}
    {doc : Document}
    (h : Program.Exec (LspOp.Step treeSitter) (LspThread.syncing path count) s r s')
    (hs : s.docs.Sound treeSitter) (hget : s.docs.documents.get path = some doc)
    (hreliable : s.index.Reliable) :
  r = .ok (.symbols count) ∧ s'.docs = s.docs ∧ s'.index.Reliable
    ∧ s'.index.tables = deleteRows path s.index.tables ++ flatten path doc.symbols
  := by
  obtain ⟨x, hreplace, hdocs, rfl⟩ := exec_syncing h hs.notPoisoned hget
  obtain ⟨db, hreplaced, hdb, htables⟩ :=
    SymbolIndex.replaceDocumentSymbols_reliable path doc.symbols hreliable
  obtain ⟨rfl, rfl⟩ := Prod.mk.inj (hreplaced.symm.trans hreplace)
  exact ⟨rfl, hdocs, hdb, htables⟩

/-- A text that is cut is stored and its rows are written. -/
theorem gives_of_stored {done : String} {symbols : List CodeSymbol} {r : Outcome String ℕ}
    {extractor : SymbolExtractor} {s₁ : LspStore} (h : s.Shows context.treeSitter view)
    (hopen : view.poisoned = false)
    (hfresh : freshSymbols context.treeSitter content (detectLanguage path) = .ok symbols)
    (hcoherent : extractor.parser.Coherent context.treeSitter)
    (hdocs : s₁.docs = ⟨s.docs.documents.insert
      { path, content, version, symbols, language := detectLanguage path }, extractor, false⟩)
    (hindex : s₁.index = s.index)
    (hrest : Program.Exec (LspOp.Step context.treeSitter)
      (LspThread.syncing path symbols.length) s₁ (r.map LspReply.symbols) s') :
  ∃ view', view.Gives context.treeSitter path content version done
      (r.map (LspRequest.textAnswer done)) view'
    ∧ s'.Shows context.treeSitter view'
  := by
  have hdocument : (OpenText.mk content version).document context.treeSitter path
      = { path, content, version, symbols, language := detectLanguage path } := by
    rw [OpenText.document, OpenText.symbols, hfresh]
  have hsound : s₁.docs.Sound context.treeSitter := by
    rw [hdocs]
    exact ⟨hcoherent, rfl⟩
  have hget : s₁.docs.documents.get path
      = some ((OpenText.mk content version).document context.treeSitter path) := by
    rw [hdocs, hdocument]
    apply Documents.get_insert_self
  have hreliable : s₁.index.Reliable := by
    rw [hindex]
    apply h.reliable
  obtain ⟨hr, hsame, hreliable', htables⟩ := exec_syncing_sound hrest hsound hget hreliable
  use view.set path ⟨content, version⟩
  constructor
  · simp only [LspView.Gives, hfresh, and_true]
    rcases r with e | count
    · cases hr
    · cases hr
      rfl
  · rw [hindex] at htables
    apply h.set hopen _ _ htables hreliable'
    · rw [hsame, hdocs, hdocument]
    · rw [hsame]
      apply hsound

/-- A text that cannot be cut poisons the documents. -/
theorem gives_of_panicked {done : String} {e : Failure String} {r : Outcome String ℕ}
    {s₁ : LspStore} (h : s.Shows context.treeSitter view)
    (hfresh : freshSymbols context.treeSitter content (detectLanguage path) = .error e)
    (hpoisoned : s₁.docs.poisoned = true) (hindex : s₁.index = s.index)
    (hrest : Program.Exec (LspOp.Step context.treeSitter) (.ret (.error e)) s₁
      (r.map LspReply.symbols) s') :
  ∃ view', view.Gives context.treeSitter path content version done
      (r.map (LspRequest.textAnswer done)) view'
    ∧ s'.Shows context.treeSitter view'
  := by
  obtain ⟨hr, rfl⟩ := Program.exec_ret.mp hrest
  use view.poison
  constructor
  · simp only [LspView.Gives, hfresh, and_true]
    rcases r with e' | count
    · cases hr
      rfl
    · cases hr
  · apply h.poison hpoisoned hindex

/-- When the operation that starts a method fails and changes nothing, the method fails with it. -/
theorem error_of_unchanged {α : Type} {e : Failure String} {r : Outcome String α}
    {f : α → LspReply} {s₁ : LspStore} (h : s.Shows context.treeSitter view)
    (hdocs : s₁.docs = s.docs) (hindex : s₁.index = s.index)
    (hrest : Program.Exec (LspOp.Step context.treeSitter) (.ret (.error e)) s₁ (r.map f) s') :
  r = .error e ∧ s'.Shows context.treeSitter view
  := by
  obtain ⟨hr, rfl⟩ := Program.exec_ret.mp hrest
  constructor
  · rcases r with e' | a
    · cases hr
      rfl
    · cases hr
  · apply h.of_same hdocs
    · rw [hindex]
      apply h.rows
    · rw [hindex]
      apply h.reliable

theorem answers_openDocument {x : Outcome String Json} (h : s.Shows context.treeSitter view)
    (hrun : context.Answers (.openDocument path content version) s x s') :
  ∃ view', view.Answers context (.openDocument path content version) x view'
    ∧ s'.Shows context.treeSitter view'
  := by
  obtain ⟨r, hends, rfl⟩ := hrun
  have hcalls : Calls context.treeSitter s (.openDocument path content version)
      (r.map LspReply.symbols) s' := LspContext.ends_map.mpr ⟨r, hends, rfl⟩
  rw [Calls, program_openDocument] at hcalls
  obtain ⟨y, s₁, ⟨hopened, hindex⟩, hrest⟩ := Program.exec_step.mp hcalls
  simp only [LspView.Answers]
  cases hpoisoned : view.poisoned with
  | true =>
      have hstore : s.docs.open_ context.treeSitter path content version
          = (.error DocumentStore.lockPoisoned, s.docs) := by
        rw [DocumentStore.open_, h.poisoned, hpoisoned]
        rfl
      obtain ⟨rfl, hdocs⟩ := Prod.mk.inj (hopened.symm.trans hstore)
      obtain ⟨rfl, hshows⟩ := error_of_unchanged h hdocs hindex hrest
      exact ⟨view, ⟨rfl, rfl⟩, hshows⟩
  | false =>
      simp only [Bool.false_eq_true, if_false]
      obtain ⟨extractor, hcoherent, hstore⟩ :=
        DocumentStore.open_eq (h.sound hpoisoned) path content version
      cases hfresh : freshSymbols context.treeSitter content (detectLanguage path) with
      | ok symbols =>
          rw [hfresh] at hstore
          obtain ⟨rfl, hdocs⟩ := Prod.mk.inj (hopened.symm.trans hstore)
          apply gives_of_stored h hpoisoned hfresh hcoherent hdocs hindex hrest
      | error e =>
          rw [hfresh] at hstore
          obtain ⟨rfl, hdocs⟩ := Prod.mk.inj (hopened.symm.trans hstore)
          apply gives_of_panicked h hfresh _ hindex hrest
          rw [hdocs]

theorem answers_updateDocument {x : Outcome String Json} (h : s.Shows context.treeSitter view)
    (hrun : context.Answers (.updateDocument path content version) s x s') :
  ∃ view', view.Answers context (.updateDocument path content version) x view'
    ∧ s'.Shows context.treeSitter view'
  := by
  obtain ⟨r, hends, rfl⟩ := hrun
  have hcalls : Calls context.treeSitter s (.updateDocument path content version)
      (r.map LspReply.symbols) s' := LspContext.ends_map.mpr ⟨r, hends, rfl⟩
  rw [Calls, program_updateDocument] at hcalls
  obtain ⟨y, s₁, ⟨hupdated, hindex⟩, hrest⟩ := Program.exec_step.mp hcalls
  simp only [LspView.Answers]
  cases hpoisoned : view.poisoned with
  | true =>
      have hstore : s.docs.update context.treeSitter path content version
          = (.error DocumentStore.lockPoisoned, s.docs) := by
        rw [DocumentStore.update, h.poisoned, hpoisoned]
        rfl
      obtain ⟨rfl, hdocs⟩ := Prod.mk.inj (hupdated.symm.trans hstore)
      obtain ⟨rfl, hshows⟩ := error_of_unchanged h hdocs hindex hrest
      exact ⟨view, ⟨rfl, rfl⟩, hshows⟩
  | false =>
      simp only [Bool.false_eq_true, if_false]
      have hget := h.documents hpoisoned path
      rw [LspView.document] at hget
      cases htext : view.texts path with
      | none =>
          rw [htext] at hget
          have hstore := @DocumentStore.update_of_get_none context.treeSitter s.docs
            (h.sound hpoisoned) path content version hget
          obtain ⟨rfl, hdocs⟩ := Prod.mk.inj (hupdated.symm.trans hstore)
          obtain ⟨rfl, hshows⟩ := error_of_unchanged h hdocs hindex hrest
          exact ⟨view, ⟨rfl, rfl⟩, hshows⟩
      | some text =>
          rw [htext] at hget
          obtain ⟨extractor, hcoherent, hstore⟩ :=
            DocumentStore.update_eq (h.sound hpoisoned) hget content version
          have hlanguage : (text.document context.treeSitter path).language
              = detectLanguage path := rfl
          cases hfresh : freshSymbols context.treeSitter content (detectLanguage path) with
          | ok symbols =>
              rw [hlanguage, hfresh] at hstore
              obtain ⟨rfl, hdocs⟩ := Prod.mk.inj (hupdated.symm.trans hstore)
              apply gives_of_stored h hpoisoned hfresh hcoherent hdocs hindex hrest
          | error e =>
              rw [hlanguage, hfresh] at hstore
              obtain ⟨rfl, hdocs⟩ := Prod.mk.inj (hupdated.symm.trans hstore)
              apply gives_of_panicked h hfresh _ hindex hrest
              rw [hdocs]

/-! ### Other requests on documents -/

theorem answers_closeDocument {x : Outcome String Json} (h : s.Shows context.treeSitter view)
    (hrun : context.Answers (.closeDocument path) s x s') :
  ∃ view', view.Answers context (.closeDocument path) x view'
    ∧ s'.Shows context.treeSitter view'
  := by
  obtain ⟨r, hends, rfl⟩ := hrun
  have hcalls : Calls context.treeSitter s (.closeDocument path) (r.map LspReply.closed) s' :=
    LspContext.ends_map.mpr ⟨r, hends, rfl⟩
  rw [Calls, program_closeDocument] at hcalls
  obtain ⟨y, s₁, ⟨hclosed, hindex⟩, hrest⟩ := Program.exec_step.mp hcalls
  simp only [LspView.Answers]
  cases hpoisoned : view.poisoned with
  | true =>
      have hstore : s.docs.close path = (.error DocumentStore.lockPoisoned, s.docs) := by
        rw [DocumentStore.close, h.poisoned, hpoisoned]
        rfl
      obtain ⟨rfl, hdocs⟩ := Prod.mk.inj (hclosed.symm.trans hstore)
      obtain ⟨rfl, hshows⟩ := error_of_unchanged h hdocs hindex hrest
      exact ⟨view, ⟨rfl, rfl⟩, hshows⟩
  | false =>
      simp only [Bool.false_eq_true, if_false]
      have hsound := h.sound hpoisoned
      have hget := h.documents hpoisoned path
      have hstore : s.docs.close path = (.ok (s.docs.documents.get path).isSome,
          { s.docs with documents := s.docs.documents.remove path }) := by
        rw [DocumentStore.close, if_neg (ne_true_of_eq_false hsound.notPoisoned)]
      obtain ⟨rfl, hdocs⟩ := Prod.mk.inj (hclosed.symm.trans hstore)
      have hsound₁ : s₁.docs.Sound context.treeSitter := by
        rw [hdocs]
        exact ⟨hsound.coherent, hsound.notPoisoned⟩
      use view.erase path
      rw [hget, LspView.document] at hrest
      cases htext : view.texts path with
      | none =>
          rw [htext] at hrest
          obtain ⟨hr, rfl⟩ := Program.exec_ret.mp hrest
          constructor
          · rcases r with e | closed
            · cases hr
            · cases hr
              exact ⟨rfl, rfl⟩
          · apply h.erase hpoisoned (congrArg DocumentStore.documents hdocs) hsound₁
            · rw [hindex]
              apply h.rows.erase_of_none htext
            · rw [hindex]
              apply h.reliable
      | some text =>
          rw [htext] at hrest
          obtain ⟨z, s₂, ⟨hremove, hsame⟩, hret⟩ := Program.exec_step.mp hrest
          rw [hindex, SymbolIndex.removeDocument_ok h.reliable.nextFault] at hremove
          obtain ⟨rfl, hindex₂⟩ := Prod.mk.inj hremove
          obtain ⟨hr, rfl⟩ := Program.exec_ret.mp hret
          constructor
          · rcases r with e | closed
            · cases hr
            · cases hr
              exact ⟨rfl, rfl⟩
          · apply h.erase hpoisoned
            · rw [hsame, hdocs]
            · rw [hsame]
              apply hsound₁
            · rw [← hindex₂]
              apply h.rows.erase
            · rw [← hindex₂]
              apply h.reliable.after

theorem answers_buildIndex {x : Outcome String Json} (h : s.Shows context.treeSitter view)
    (hrun : context.Answers .buildIndex s x s') :
  ∃ view', view.Answers context .buildIndex x view' ∧ s'.Shows context.treeSitter view'
  := by
  obtain ⟨r, hends, rfl⟩ := hrun
  have hcalls : Calls context.treeSitter s .buildIndex (r.map (fun r => .indexed r.1 r.2)) s' :=
    LspContext.ends_map.mpr ⟨r, hends, rfl⟩
  have hreliable := reliable_of_calls hcalls h.reliable
  obtain ⟨hdocs, hcases⟩ := calls_buildIndex hcalls
  simp only [LspView.Answers]
  rcases hcases with ⟨docs, hopen, hperm, hr, htables⟩ | ⟨hpoisoned, hr, htables⟩
    | ⟨e, -, hfault, -⟩
  · have hview : view.poisoned = false := h.poisoned.symm.trans hopen
    use view
    constructor
    · simp only [hview, Bool.false_eq_true, if_false, true_and]
      use docs, h.lists hview hperm
      rcases r with e | ⟨documents, symbols⟩
      · cases hr
      · cases hr
        rfl
    · apply h.of_same hdocs _ hreliable
      rw [htables]
      apply h.rows_rowsOf hview hperm
  · have hview : view.poisoned = true := h.poisoned.symm.trans hpoisoned
    use { view with texts := fun _ => none }
    constructor
    · simp only [hview, if_true, and_true]
      rcases r with e | indexed
      · cases hr
        rfl
      · cases hr
    · constructor
      · rw [hdocs]
        apply h.poisoned
      · intro hopen
        rw [hview] at hopen
        cases hopen
      · intro hopen
        rw [hview] at hopen
        cases hopen
      · rw [htables]
        intro path
        rfl
      · apply hreliable
  · cases hfault h.reliable

theorem answers_hover {x : Outcome String Json} {line col : UInt32}
    (h : s.Shows context.treeSitter view) (hrun : context.Answers (.hover path line col) s x s') :
  ∃ view', view.Answers context (.hover path line col) x view'
    ∧ s'.Shows context.treeSitter view'
  := by
  obtain ⟨rfl, rfl⟩ := hrun
  refine ⟨view, ⟨rfl, ?_⟩, h⟩
  rw [LspView.Unless, DocumentStore.hover, DocumentStore.get, h.poisoned]
  cases hpoisoned : view.poisoned with
  | true => rfl
  | false =>
      rw [h.documents hpoisoned]
      cases view.document context.treeSitter path with
      | none => rfl
      | some doc => rfl

theorem answers_diagnostics {x : Outcome String Json} (h : s.Shows context.treeSitter view)
    (hrun : context.Answers (.diagnostics path) s x s') :
  ∃ view', view.Answers context (.diagnostics path) x view'
    ∧ s'.Shows context.treeSitter view'
  := by
  obtain ⟨rfl, rfl⟩ := hrun
  refine ⟨view, ⟨rfl, ?_⟩, h⟩
  rw [LspView.Unless, DocumentStore.diagnostics, DocumentStore.get, h.poisoned]
  cases hpoisoned : view.poisoned with
  | true => rfl
  | false =>
      rw [h.documents hpoisoned]
      cases view.document context.treeSitter path with
      | none => rfl
      | some doc =>
          obtain ⟨path, content, version, symbols, language⟩ := doc
          cases language with
          | none => rfl
          | some lang => rfl

/-- Completing leaves the store. -/
theorem same_of_complete {r : Outcome String (List CompletionItem)} {line col : UInt32}
    {prefixOverride : Option String}
    (h : context.Ends (LspStore.complete context.isAlphanumeric path line col prefixOverride) s r
      s') :
  s' = s
  := by
  let Reads (op : LspOp) : Prop := op = .docsAll ∨ op = .docsGet path
  have hall : Reads .docsAll := Or.inl rfl
  have hget : Reads (.docsGet path) := Or.inr rfl
  have huses : Program.Uses Reads
      (LspStore.complete context.isAlphanumeric path line col prefixOverride).run := by
    apply Program.uses_fallible_bind
    · cases prefixOverride with
      | some start => apply Program.Uses.ret
      | none =>
          apply Program.uses_fallible_bind
          · exact Program.uses_call hget
          · rintro (_ | doc)
            · apply Program.Uses.ret
            · apply Program.Uses.ret
    · intro start
      apply Program.uses_fallible_bind
      · exact Program.uses_call hall
      · intro docs
        apply Program.Uses.ret
  apply @Program.Exec.invariant_of_uses _ _ _ _ Reads _ (fun t => t = s) _ _ _ _ _ h huses rfl
  rintro op t x t' (rfl | rfl) rfl hstep
  · apply hstep.2
  · apply hstep.2

theorem answers_complete {x : Outcome String Json} {line col : UInt32}
    {prefixOverride : Option String} (h : s.Shows context.treeSitter view)
    (hrun : context.Answers (.complete path line col prefixOverride) s x s') :
  ∃ view', view.Answers context (.complete path line col prefixOverride) x view'
    ∧ s'.Shows context.treeSitter view'
  := by
  obtain ⟨r, hends, rfl⟩ := hrun
  cases hpoisoned : s.docs.poisoned with
  | true =>
      have hview : view.poisoned = true := h.poisoned.symm.trans hpoisoned
      have hlists : view.poisoned = false → view.Lists context.treeSitter [] := by
        intro hopen
        rw [hview] at hopen
        cases hopen
      obtain rfl := same_of_complete hends
      refine ⟨view, ⟨rfl, [], hlists, ?_⟩, h⟩
      rw [LspStore.exec_complete_poisoned hpoisoned hends, LspView.Unless, hview]
      rfl
  | false =>
      obtain ⟨rfl, docs, hperm, rfl⟩ := (LspStore.exec_complete hpoisoned).mp hends
      have hview : view.poisoned = false := h.poisoned.symm.trans hpoisoned
      refine ⟨view, ⟨rfl, docs, fun _ => h.lists hview hperm, ?_⟩, h⟩
      have hstart : s'.prefixAt context.isAlphanumeric path line col prefixOverride
          = prefixOverride.getD (((view.document context.treeSitter path).map (fun doc =>
            wordBeforeCursor context.isAlphanumeric doc.content line col)).getD "") := by
        simp only [LspStore.prefixAt, h.documents hview]
        cases prefixOverride with
        | some start => rfl
        | none =>
            cases view.document context.treeSitter path with
            | none => rfl
            | some doc => rfl
      rw [LspView.Unless, hview, hstart]
      rfl

/-! ### Requests on the index -/

theorem answers_gotoDefinition {x : Outcome String Json} {line col : UInt32}
    (h : s.Shows context.treeSitter view)
    (hrun : context.Answers (.gotoDefinition path line col) s x s') :
  ∃ view', view.Answers context (.gotoDefinition path line col) x view'
    ∧ s'.Shows context.treeSitter view'
  := by
  obtain ⟨r, hquery, hdocs, rfl⟩ := hrun
  rw [SymbolIndex.gotoDefinition_eq h.reliable] at hquery
  obtain ⟨rfl, hindex⟩ := Prod.mk.inj hquery
  refine ⟨view, ⟨rfl, _, h.rows, rfl⟩, h.of_same hdocs ?_ ?_⟩
  · rw [← hindex]
    apply h.rows
  · rw [← hindex]
    apply h.reliable

theorem answers_findReferences {x : Outcome String Json} {line col : UInt32}
    (h : s.Shows context.treeSitter view)
    (hrun : context.Answers (.findReferences path line col) s x s') :
  ∃ view', view.Answers context (.findReferences path line col) x view'
    ∧ s'.Shows context.treeSitter view'
  := by
  obtain ⟨r, hquery, hdocs, rfl⟩ := hrun
  rw [SymbolIndex.findReferences_eq h.reliable] at hquery
  obtain ⟨rfl, hindex⟩ := Prod.mk.inj hquery
  refine ⟨view, ⟨rfl, _, h.rows, rfl⟩, h.of_same hdocs ?_ ?_⟩
  · rw [← hindex]
    apply h.rows
  · rw [← hindex]
    apply h.reliable

theorem answers_workspaceSymbols {x : Outcome String Json} {query : String}
    (h : s.Shows context.treeSitter view)
    (hrun : context.Answers (.workspaceSymbols query) s x s') :
  ∃ view', view.Answers context (.workspaceSymbols query) x view'
    ∧ s'.Shows context.treeSitter view'
  := by
  obtain ⟨r, hquery, hdocs, rfl⟩ := hrun
  rw [SymbolIndex.searchSymbols_eq h.reliable] at hquery
  obtain ⟨rfl, hindex⟩ := Prod.mk.inj hquery
  refine ⟨view, ⟨rfl, _, h.rows, ?_⟩, h.of_same hdocs ?_ ?_⟩
  · split
    · rfl
    · rfl
  · rw [← hindex]
    apply h.rows
  · rw [← hindex]
    apply h.reliable

theorem answers_request {request : LspRequest} {x : Outcome String Json}
    (h : s.Shows context.treeSitter view) (hrun : context.Answers request s x s') :
  ∃ view', view.Answers context request x view' ∧ s'.Shows context.treeSitter view'
  := by
  cases request with
  | openDocument path content version => apply answers_openDocument h hrun
  | closeDocument path => apply answers_closeDocument h hrun
  | updateDocument path content version => apply answers_updateDocument h hrun
  | gotoDefinition path line col => apply answers_gotoDefinition h hrun
  | findReferences path line col => apply answers_findReferences h hrun
  | hover path line col => apply answers_hover h hrun
  | complete path line col prefixOverride => apply answers_complete h hrun
  | diagnostics path => apply answers_diagnostics h hrun
  | workspaceSymbols query => apply answers_workspaceSymbols h hrun
  | buildIndex => apply answers_buildIndex h hrun

/-- What a tool answers and leaves, the open texts answer and leave. -/
theorem handles_tool {call : LspTool × Json} {x : Except String Json}
    (h : s.Shows context.treeSitter view) (hrun : context.Handles call s x s') :
  ∃ view', view.Handles context call x view' ∧ s'.Shows context.treeSitter view'
  := by
  rw [LspContext.Handles] at hrun
  simp only [LspView.Handles]
  cases hrequest : call.1.request call.2 with
  | error e =>
      rw [hrequest] at hrun
      obtain ⟨rfl, rfl⟩ := hrun
      exact ⟨view, ⟨rfl, rfl⟩, h⟩
  | ok request =>
      rw [hrequest] at hrun
      obtain ⟨r, hanswers, rfl⟩ := hrun
      obtain ⟨view', hview, hshows⟩ := answers_request h hanswers
      exact ⟨view', ⟨r, hview, rfl⟩, hshows⟩

end Requests

/-! ### Runs -/

/-- A call of a tool and its answer. -/
abbrev LspExchange : Type :=
  (LspTool × Json) × Except String Json

/-- Tools that run one after another on a new store with an empty index answer as the open texts
do, and the store shows them after each call. -/
theorem lsp_refines (context : LspContext) {index : LspDb} (hempty : index.tables = [])
    (hreliable : index.Reliable) {steps : List (LspExchange × LspStore)}
    (h : Trace (fun s e s' => context.Handles e.1 s e.2 s') (LspStore.new index) steps) :
  ∃ views : List (LspExchange × LspView),
    Trace (fun view e view' => view.Handles context e.1 e.2 view') .empty views
    ∧ List.Forall₂ (fun x y => x.1 = y.1 ∧ x.2.Shows context.treeSitter y.2) steps views
  := by
  apply h.simulate _ (LspStore.shows_new hempty hreliable)
  intro s view e s' hshows hrun
  apply handles_tool hshows hrun

/-! ### A document opened and checked -/

/-- `sampleTreeSitter`, whose trees have no faulty nodes. -/
def sampleContext : LspContext where
  treeSitter := sampleTreeSitter
  flags := ⟨fun _ => false, fun _ => false⟩
  isAlphanumeric := Char.isAlphanum
  scan := .inserted
  joinError := "task 1 panicked"

/-- The arguments of `lsp_open_document` for `mainSource`. -/
def openMainArgs : Json :=
  .object [("content", .string mainSource), ("path", .string "main.rs")]

/-- The arguments of `lsp_diagnostics` for `main.rs`. -/
def diagnoseMainArgs : Json :=
  .object [("path", .string "main.rs")]

/-- The open texts answer as the store does when `main.rs` is opened and checked. -/
theorem lsp_refines_main :
  ∃ (extractor : SymbolExtractor) (views : List (LspExchange × LspView)),
    Trace (fun view e view' => view.Handles sampleContext e.1 e.2 view') .empty views
    ∧ List.Forall₂ (fun x y => x.1 = y.1 ∧ x.2.Shows sampleTreeSitter y.2)
      [(((.openDocument, openMainArgs), .ok (LspRequest.textAnswer "opened" 1)),
          indexedMain extractor),
        (((.diagnostics, diagnoseMainArgs), .ok (LspRequest.diagnosticsAnswer [])),
          indexedMain extractor)] views
  := by
  obtain ⟨extractor, -, hcalls⟩ := calls_open_mainSource
  obtain ⟨r, hends, hr⟩ := (@LspContext.ends_map sampleContext _ _ _ _ _ _ _).mp hcalls
  have hr : r = .ok 1 := by
    rcases r with e | count
    · cases hr
    · cases hr
      rfl
  rw [hr] at hends
  have hreliable : (⟨[], []⟩ : LspDb).Reliable := rfl
  use extractor
  apply @lsp_refines sampleContext ⟨[], []⟩ rfl hreliable
  apply Trace.cons ⟨_, ⟨_, hends, rfl⟩, rfl⟩
  apply Trace.cons _ Trace.nil
  refine ⟨_, ⟨rfl, rfl⟩, ?_⟩
  have hget : (openedMain extractor).get "main.rs" = .ok (some mainDocument) :=
    congrArg Except.ok (get_openedMain extractor)
  have hdiagnostics : (openedMain extractor).diagnostics sampleContext.flags sampleTreeSitter
      "main.rs" = .ok [] := by
    rw [DocumentStore.diagnostics, hget]
    rfl
  exact congrArg (fun x => sampleContext.joined (x.map LspRequest.diagnosticsAnswer))
    hdiagnostics.symm

end OrchestraRag
