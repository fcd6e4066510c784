import Mathlib.Data.List.Forall2
import OrchestraRag.Lsp.Sequential
import OrchestraRag.Lsp.Service
import OrchestraRag.Lsp.WorkspaceSymbols
import OrchestraRag.Parser.Filter

/-!
# Counts of symbols

`open_document` and `update_document` report how many symbols they extracted: the number of trees
of the forest.  The index has a row for each symbol at any depth, and `build_index` counts rows.
The numbers agree exactly on the texts without nested symbols (`counts_agree_iff`).
-/

namespace OrchestraRag

/-! ### Texts -/

/-- No symbol of the text, in the language of the path, is nested in another. -/
def FlatText (treeSitter : TreeSitter) (path content : String) : Prop :=
  ∀ symbols, freshSymbols treeSitter content (detectLanguage path) = .ok symbols →
    ∀ sym ∈ symbols, sym.children = []

/-- The document has the symbols of a text, and `count` is the number of trees. -/
structure Document.Reports (treeSitter : TreeSitter) (path content : String) (count : ℕ)
    (doc : Document) : Prop where
  located : doc.path = path
  symbols : freshSymbols treeSitter content (detectLanguage path) = .ok doc.symbols
  count : count = doc.symbols.length

theorem Document.Reports.flat_iff {treeSitter : TreeSitter} {path content : String} {count : ℕ}
    {doc : Document} (h : doc.Reports treeSitter path content count) :
  FlatText treeSitter path content ↔ ∀ sym ∈ doc.symbols, sym.children = []
  := by
  constructor
  · intro hflat
    apply hflat doc.symbols h.symbols
  · intro hflat symbols hsymbols
    rw [Except.ok.inj (hsymbols.symm.trans h.symbols)]
    apply hflat

/-! ### The document store -/

section DocumentStore

variable {treeSitter : TreeSitter} {store store' : DocumentStore} {path content : String}
  {version : Int64} {count : ℕ}

/-- The extractor is coherent, and every document has the language of its path. -/
structure DocumentStore.Detecting (treeSitter : TreeSitter) (store : DocumentStore) : Prop where
  coherent : store.extractor.parser.Coherent treeSitter
  language : ∀ path doc, store.documents.get path = some doc → doc.language = detectLanguage path

namespace DocumentStore

theorem detecting_new :
  DocumentStore.new.Detecting treeSitter
  := by
  constructor
  · apply ParserWrapper.coherent_new treeSitter
  · intro path doc hget
    rw [new, Documents.get_empty] at hget
    cases hget

/-- Storing a document with the language of its path. -/
theorem Detecting.insert (h : store.Detecting treeSitter) {extractor : SymbolExtractor}
    (hcoherent : extractor.parser.Coherent treeSitter) {doc : Document}
    (hlanguage : doc.language = detectLanguage doc.path) (poisoned : Bool) :
  (⟨store.documents.insert doc, extractor, poisoned⟩ : DocumentStore).Detecting treeSitter
  := by
  constructor
  · apply hcoherent
  · intro path' doc' hget
    by_cases hpath : path' = doc.path
    · rw [hpath, Documents.get_insert_self] at hget
      cases hget
      rw [hlanguage, hpath]
    · rw [Documents.get_insert_of_ne hpath] at hget
      apply h.language path' doc' hget

/-- Opening a document keeps the languages; when it succeeds, it reports the number of trees. -/
theorem Detecting.opened (h : store.Detecting treeSitter) {x : Outcome String ℕ}
    (hopen : store.open_ treeSitter path content version = (x, store')) :
  store'.Detecting treeSitter
    ∧ ∀ count, x = .ok count → ∃ doc : Document, doc.Reports treeSitter path content count
      ∧ store'.documents = store.documents.insert doc ∧ store'.poisoned = false
  := by
  cases hpoisoned : store.poisoned with
  | true =>
      rw [open_, if_pos hpoisoned] at hopen
      cases hopen
      use h
      rintro count ⟨⟩
  | false =>
      obtain ⟨extractor, hcoherent, heq⟩ := open_eq ⟨h.coherent, hpoisoned⟩ path content version
      rw [heq] at hopen
      cases hsymbols : freshSymbols treeSitter content (detectLanguage path) with
      | error e =>
          rw [hsymbols] at hopen
          cases hopen
          use ⟨hcoherent, h.language⟩
          rintro count ⟨⟩
      | ok symbols =>
          rw [hsymbols] at hopen
          cases hopen
          constructor
          · apply h.insert hcoherent rfl
          · rintro count ⟨⟩
            exact ⟨_, ⟨rfl, hsymbols, rfl⟩, rfl, rfl⟩

/-- Updating a document keeps the languages; when it succeeds, it reports the number of trees. -/
theorem Detecting.updated (h : store.Detecting treeSitter) {x : Outcome String ℕ}
    (hupdate : store.update treeSitter path content version = (x, store')) :
  store'.Detecting treeSitter
    ∧ ∀ count, x = .ok count → ∃ doc : Document, doc.Reports treeSitter path content count
      ∧ store'.documents = store.documents.insert doc ∧ store'.poisoned = false
  := by
  cases hpoisoned : store.poisoned with
  | true =>
      rw [update, if_pos hpoisoned] at hupdate
      cases hupdate
      use h
      rintro count ⟨⟩
  | false =>
      have hsound : store.Sound treeSitter := ⟨h.coherent, hpoisoned⟩
      cases hget : store.documents.get path with
      | none =>
          rw [update_of_get_none hsound hget] at hupdate
          cases hupdate
          use h
          rintro count ⟨⟩
      | some old =>
          have hlanguage := h.language path old hget
          obtain rfl := Documents.path_of_get hget
          obtain ⟨extractor, hcoherent, heq⟩ := update_eq hsound hget content version
          rw [heq] at hupdate
          cases hsymbols : freshSymbols treeSitter content old.language with
          | error e =>
              rw [hsymbols] at hupdate
              cases hupdate
              constructor
              · apply @insert treeSitter store h extractor hcoherent
                  { old with content := content, version := version } hlanguage
              · rintro count ⟨⟩
          | ok symbols =>
              rw [hsymbols] at hupdate
              cases hupdate
              constructor
              · apply @insert treeSitter store h extractor hcoherent
                  { old with content := content, version := version, symbols := symbols } hlanguage
              · rintro count ⟨⟩
                rw [hlanguage] at hsymbols
                use { old with content := content, version := version, symbols := symbols }
                exact ⟨⟨rfl, hsymbols, rfl⟩, rfl, rfl⟩

theorem Detecting.closed (h : store.Detecting treeSitter) {x : Outcome String Bool}
    (hclose : store.close path = (x, store')) :
  store'.Detecting treeSitter
  := by
  rw [close] at hclose
  split at hclose
  · cases hclose
    apply h
  · cases hclose
    constructor
    · apply h.coherent
    · intro path' doc hget
      by_cases hpath : path' = path
      · rw [hpath, Documents.get_remove_self] at hget
        cases hget
      · rw [Documents.get_remove_of_ne hpath] at hget
        apply h.language path' doc hget

end DocumentStore

end DocumentStore

/-! ### Calls -/

section Calls

variable {treeSitter : TreeSitter} {s s' : LspStore} {path content : String} {count : ℕ}

theorem detecting_step {op : LspOp} {x : LspAns op} (h : s.docs.Detecting treeSitter)
    (hstep : LspOp.Step treeSitter op s x s') :
  s'.docs.Detecting treeSitter
  := by
  cases op with
  | docsOpen path content version => apply (h.opened hstep.1).1
  | docsClose path => apply h.closed hstep.1
  | docsUpdate path content version => apply (h.updated hstep.1).1
  | docsGet path =>
      rw [hstep.2]
      apply h
  | docsAll =>
      rw [hstep.2]
      apply h
  | indexReplace path symbols =>
      rw [hstep.2]
      apply h
  | indexRemove path =>
      rw [hstep.2]
      apply h
  | indexClear =>
      rw [hstep.2]
      apply h

/-- Every call keeps the languages of the documents. -/
theorem detecting_of_calls {call : LspCall} {r : Outcome String LspReply}
    (h : Calls treeSitter s call r s') (hs : s.docs.Detecting treeSitter) :
  s'.docs.Detecting treeSitter
  := by
  have hkept : ∀ op (t : LspStore) x t', t.docs.Detecting treeSitter →
      LspOp.Step treeSitter op t x t' → t'.docs.Detecting treeSitter := by
    intro op t x t' ht hstep
    apply detecting_step ht hstep
  apply Program.Exec.invariant hkept h hs

/-- The call opens or updates the document at a path. -/
inductive LspCall.Sets (path content : String) : LspCall → Prop
  | opens {version : Int64} : Sets path content (.openDocument path content version)
  | updates {version : Int64} : Sets path content (.updateDocument path content version)

/-- Syncing that succeeds leaves the rows of the document at its path. -/
theorem rows_of_syncing {doc : Document}
    (h : Program.Exec (LspOp.Step treeSitter) (LspThread.syncing path count) s
      (.ok (.symbols count)) s')
    (hpoisoned : s.docs.poisoned = false) (hget : s.docs.documents.get path = some doc) :
  s'.docs = s.docs ∧ rowsAt path s'.index.tables = flatten path doc.symbols
  := by
  obtain ⟨x, hreplace, hdocs, hr⟩ := exec_syncing h hpoisoned hget
  use hdocs
  rcases SymbolIndex.replaceDocumentSymbols_cases path doc.symbols s.index with
    ⟨db, hcall, htables⟩ | ⟨e, db, hcall, -⟩
  · obtain ⟨-, rfl⟩ := Prod.mk.inj (hreplace.symm.trans hcall)
    rw [htables, rowsAt_append, rowsAt_deleteRows_self, rowsAt_flatten_self, List.nil_append]
  · obtain ⟨rfl, -⟩ := Prod.mk.inj (hreplace.symm.trans hcall)
    cases hr

/-- A call that opens or updates a document and succeeds reports the number of trees, stores the
document and leaves its rows. -/
theorem reports_of_calls {call : LspCall} (hsets : call.Sets path content)
    (h : Calls treeSitter s call (.ok (.symbols count)) s') (hs : s.docs.Detecting treeSitter) :
  ∃ doc : Document, doc.Reports treeSitter path content count
    ∧ s'.docs.documents = s.docs.documents.insert doc
    ∧ rowsAt path s'.index.tables = flatten path doc.symbols
  := by
  have hstored {t : LspStore} {n : ℕ} {doc : Document} (hdoc : doc.Reports treeSitter path content n)
      (hdocs : t.docs.documents = s.docs.documents.insert doc)
      (hpoisoned : t.docs.poisoned = false)
      (hsync : Program.Exec (LspOp.Step treeSitter) (LspThread.syncing path n) t
        (.ok (.symbols count)) s') :
      ∃ doc : Document, doc.Reports treeSitter path content count
        ∧ s'.docs.documents = s.docs.documents.insert doc
        ∧ rowsAt path s'.index.tables = flatten path doc.symbols := by
    have hget : t.docs.documents.get path = some doc := by
      rw [hdocs, ← hdoc.located, Documents.get_insert_self]
    obtain ⟨x, -, -, hr⟩ := exec_syncing hsync hpoisoned hget
    obtain rfl : n = count := by
      rcases x with e | k
      · cases hr
      · cases hr
        rfl
    obtain ⟨hsame, hrows⟩ := rows_of_syncing hsync hpoisoned hget
    rw [hsame]
    exact ⟨doc, hdoc, hdocs, hrows⟩
  cases hsets with
  | opens =>
      rw [Calls, program_openDocument] at h
      obtain ⟨x, s₁, ⟨hopen, -⟩, h⟩ := Program.exec_step.mp h
      obtain ⟨-, hreports⟩ := hs.opened hopen
      rcases (x : Outcome String ℕ) with e | n
      · obtain ⟨⟨⟩, -⟩ := Program.exec_ret.mp h
      · obtain ⟨doc, hdoc, hdocs, hpoisoned⟩ := hreports n rfl
        apply hstored hdoc hdocs hpoisoned h
  | updates =>
      rw [Calls, program_updateDocument] at h
      obtain ⟨x, s₁, ⟨hupdate, -⟩, h⟩ := Program.exec_step.mp h
      obtain ⟨-, hreports⟩ := hs.updated hupdate
      rcases (x : Outcome String ℕ) with e | n
      · obtain ⟨⟨⟩, -⟩ := Program.exec_ret.mp h
      · obtain ⟨doc, hdoc, hdocs, hpoisoned⟩ := hreports n rfl
        apply hstored hdoc hdocs hpoisoned h

/-- What a document adds to the number of symbols that rebuilding the index returns. -/
def Document.contribution (doc : Document) : ℕ :=
  (flatten doc.path doc.symbols).length

theorem Document.contribution_eq (doc : Document) :
  doc.contribution = (everySymbol doc.symbols).length
  := by
  rw [contribution, flatten_eq, List.length_map]

/-- The count is the number of rows at the path, and what the document adds to the number that
rebuilding the index returns. -/
structure CountAgrees (path : String) (count : ℕ) (s : LspStore) : Prop where
  rows : (rowsAt path s.index.tables).length = count
  contribution : ∀ doc, s.docs.documents.get path = some doc → doc.contribution = count

/-- The count that a call reports agrees with the index exactly when the text is flat. -/
theorem countAgrees_iff {call : LspCall} (hsets : call.Sets path content)
    (h : Calls treeSitter s call (.ok (.symbols count)) s') (hs : s.docs.Detecting treeSitter) :
  CountAgrees path count s' ↔ FlatText treeSitter path content
  := by
  obtain ⟨doc, hdoc, hdocs, hrows⟩ := reports_of_calls hsets h hs
  have hlength : (rowsAt path s'.index.tables).length = doc.contribution := by
    rw [hrows, Document.contribution, hdoc.located]
  rw [hdoc.flat_iff, ← length_everySymbol_eq_iff, ← hdoc.count, ← doc.contribution_eq]
  constructor
  · intro hagrees
    rw [← hlength]
    apply hagrees.rows
  · intro hflat
    constructor
    · rw [hlength, hflat]
    · intro doc' hget
      rw [hdocs, ← hdoc.located, Documents.get_insert_self] at hget
      cases hget
      apply hflat

end Calls

/-! ### Documents that are opened -/

/-- A document to open, and the count that is reported for it. -/
structure OpenedText where
  path : String
  content : String
  version : Int64
  count : ℕ

/-- Opening the document, with its count as the answer. -/
def OpenedText.event (text : OpenedText) : LspEvent :=
  (.openDocument text.path text.content text.version, .ok (.symbols text.count))

/-- The document is that of the text. -/
def OpenedText.IsDocument (treeSitter : TreeSitter) (text : OpenedText) (doc : Document) : Prop :=
  doc.Reports treeSitter text.path text.content text.count

theorem values_insert_of_get_none {docs : Documents} {doc : Document}
    (h : docs.get doc.path = none) :
  (docs.insert doc).values = doc :: docs.values
  := by
  have hnew : doc.path ∉ docs.map := AList.lookup_eq_none.mp h
  rw [Documents.values, Documents.insert, AList.entries_insert_of_notMem hnew, List.map_cons]
  rfl

section Opening

variable {treeSitter : TreeSitter} {s : LspStore} {history : List (LspEvent × LspStore)}
  {texts : List OpenedText}

/-- After documents at different new paths were opened, they are open beside those that were. -/
theorem documents_of_opening (h : Trace (CallStep treeSitter) s history)
    (hevents : history.map Prod.fst = texts.map OpenedText.event)
    (hpaths : (texts.map OpenedText.path).Nodup)
    (hnew : ∀ text ∈ texts, s.docs.documents.get text.path = none)
    (hs : s.docs.Detecting treeSitter) :
  ∃ docs, List.Forall₂ (OpenedText.IsDocument treeSitter) texts docs
    ∧ (Trace.last s history).docs.documents.values.Perm (docs ++ s.docs.documents.values)
  := by
  induction h generalizing texts with
  | nil =>
      obtain rfl := List.map_eq_nil_iff.mp hevents.symm
      exact ⟨[], List.Forall₂.nil, List.Perm.refl _⟩
  | @cons s s' e history hfirst hrest ih =>
      cases texts with
      | nil => cases hevents
      | cons text texts =>
          obtain ⟨rfl, hrestEvents⟩ := List.cons_eq_cons.mp hevents
          obtain ⟨hpath, hpaths⟩ := List.nodup_cons.mp hpaths
          rw [List.forall_mem_cons] at hnew
          obtain ⟨doc, hdoc, hdocs, -⟩ := reports_of_calls LspCall.Sets.opens hfirst hs
          have hnew' : ∀ other ∈ texts, s'.docs.documents.get other.path = none := by
            intro other hother
            rw [hdocs, Documents.get_insert_of_ne]
            · apply hnew.2 other hother
            · rw [hdoc.located]
              intro heq
              apply hpath
              rw [← heq]
              apply List.mem_map_of_mem hother
          obtain ⟨docs, hmatch, hperm⟩ :=
            ih hrestEvents hpaths hnew' (detecting_of_calls hfirst hs)
          use doc :: docs, List.Forall₂.cons hdoc hmatch
          have habsent : s.docs.documents.get doc.path = none := by
            rw [hdoc.located]
            apply hnew.1
          rw [hdocs, values_insert_of_get_none habsent] at hperm
          apply hperm.trans List.perm_middle

/-- The sum of the counts is the number of trees. -/
theorem sum_counts {docs : List Document}
    (h : List.Forall₂ (OpenedText.IsDocument treeSitter) texts docs) :
  (texts.map OpenedText.count).sum = (docs.flatMap Document.symbols).length
  := by
  induction h with
  | nil => rfl
  | cons hdoc _ ih =>
      rw [List.map_cons, List.sum_cons, ih, hdoc.count, List.flatMap_cons, List.length_append]

theorem length_rowsOf (docs : List Document) :
  (rowsOf docs).length = (everySymbol (docs.flatMap Document.symbols)).length
  := by
  induction docs with
  | nil => rfl
  | cons doc docs ih =>
      rw [rowsOf_cons, List.length_append, ih, List.flatMap_cons, everySymbol_append,
        List.length_append, flatten_eq, List.length_map]

theorem flat_iff_of_opening {docs : List Document}
    (h : List.Forall₂ (OpenedText.IsDocument treeSitter) texts docs) :
  (∀ sym ∈ docs.flatMap Document.symbols, sym.children = [])
    ↔ ∀ text ∈ texts, FlatText treeSitter text.path text.content
  := by
  induction h with
  | nil => simp
  | cons hdoc _ ih =>
      rw [List.flatMap_cons, List.forall_mem_append, List.forall_mem_cons, ih, hdoc.flat_iff]

/-- Rebuilding the index returns the number of symbols at any depth of the open documents. -/
theorem total_of_buildIndex {s' : LspStore} {documents total : ℕ}
    (h : Calls treeSitter s .buildIndex (.ok (.indexed documents total)) s')
    {docs : List Document} (hdocs : s.docs.documents.values.Perm docs) :
  total = (everySymbol (docs.flatMap Document.symbols)).length
  := by
  obtain ⟨-, ⟨found, -, hperm, hr, -⟩ | ⟨-, ⟨⟩, -⟩ | ⟨e, ⟨⟩, -⟩⟩ := calls_buildIndex h
  cases hr
  rw [← length_rowsOf]
  apply ((hperm.trans hdocs).flatMap_right _).length_eq

end Opening

/-- In every history of calls, the count that opening or updating a document reports agrees with the
rows of the document, and with what it adds to the number that rebuilding the index returns,
exactly when its text is flat.  After documents at different paths were opened, rebuilding the
index returns the sum of the reported counts exactly when all their texts are flat. -/
theorem counts_agree_iff (treeSitter : TreeSitter) (index : LspDb)
    {history : List (LspEvent × LspStore)}
    (h : Trace (CallStep treeSitter) (LspStore.new index) history) :
  Trace.Throughout (fun _ e s' => ∀ path content count, e.1.Sets path content →
      e.2 = .ok (.symbols count) → (CountAgrees path count s' ↔ FlatText treeSitter path content))
      (LspStore.new index) history
    ∧ ∀ (texts : List OpenedText) (documents total : ℕ) (s' : LspStore),
      history.map Prod.fst = texts.map OpenedText.event → (texts.map OpenedText.path).Nodup →
      Calls treeSitter (Trace.last (LspStore.new index) history) .buildIndex
        (.ok (.indexed documents total)) s' →
      (total = (texts.map OpenedText.count).sum
        ↔ ∀ text ∈ texts, FlatText treeSitter text.path text.content)
  := by
  have hnew : (LspStore.new index).docs.Detecting treeSitter := DocumentStore.detecting_new
  constructor
  · have hthroughout : ∀ (s : LspStore) (steps : List (LspEvent × LspStore)),
        Trace (CallStep treeSitter) s steps → s.docs.Detecting treeSitter →
        Trace.Throughout (fun _ e s' => ∀ path content count, e.1.Sets path content →
          e.2 = .ok (.symbols count) →
            (CountAgrees path count s' ↔ FlatText treeSitter path content)) s steps := by
      intro s steps hsteps hs
      induction hsteps with
      | nil => trivial
      | @cons s s' e steps hfirst _ ih =>
          obtain ⟨call, r⟩ := e
          constructor
          · rintro path content count hsets rfl
            apply countAgrees_iff hsets hfirst hs
          · apply ih (detecting_of_calls hfirst hs)
    apply hthroughout _ _ h hnew
  · intro texts documents total s' hevents hpaths hbuild
    obtain ⟨docs, hmatch, hperm⟩ := documents_of_opening h hevents hpaths (fun _ _ => rfl) hnew
    have hvalues : (LspStore.new index).docs.documents.values = [] := rfl
    rw [hvalues, List.append_nil] at hperm
    rw [total_of_buildIndex hbuild hperm, sum_counts hmatch, length_everySymbol_eq_iff]
    apply flat_iff_of_opening hmatch

/-! ### A nested symbol -/

section Nested

open ParseTools (classSource classTreeSitter classSymbol extractFresh_classSource)

theorem freshSymbols_class :
  freshSymbols classTreeSitter classSource (detectLanguage "a.py") = .ok [classSymbol]
  := by
  have hlanguage : detectLanguage "a.py" = some "python" := by decide
  have hextract := extractFresh_classSource
  rw [SymbolExtractor.extractFresh] at hextract
  rcases hnew : SymbolExtractor.new.extractSymbols classTreeSitter classSource "python" with
    ⟨x, extractor⟩
  rw [hnew] at hextract
  obtain rfl := hextract
  rw [hlanguage, freshSymbols, parseSymbols, hnew]

/-- A fresh store opens a class with a method: one symbol is reported, and there are two rows. -/
theorem calls_open_class :
  ∃ s, Calls classTreeSitter (LspStore.new ⟨[], []⟩) (.openDocument "a.py" classSource 1)
      (.ok (.symbols 1)) s
    ∧ s.index.tables = flatten "a.py" [classSymbol]
  := by
  have hsound : DocumentStore.new.Sound classTreeSitter :=
    ⟨ParserWrapper.coherent_new classTreeSitter, rfl⟩
  obtain ⟨extractor, -, hopen⟩ := DocumentStore.open_eq hsound "a.py" classSource 1
  rw [freshSymbols_class] at hopen
  let doc : Document := ⟨"a.py", classSource, 1, [classSymbol], detectLanguage "a.py"⟩
  let docs : DocumentStore := ⟨Documents.empty.insert doc, extractor, false⟩
  have hget : docs.get "a.py" = .ok (some doc) :=
    congrArg Except.ok (Documents.get_insert_self _ _)
  use ⟨docs, ⟨flatten "a.py" [classSymbol], []⟩⟩
  constructor
  · have hopened : LspOp.Step classTreeSitter (.docsOpen "a.py" classSource 1)
        (LspStore.new ⟨[], []⟩) (Except.ok 1 : Outcome String ℕ) ⟨docs, ⟨[], []⟩⟩ := ⟨hopen, rfl⟩
    have hread : LspOp.Step classTreeSitter (.docsGet "a.py") ⟨docs, ⟨[], []⟩⟩
        (Except.ok (some doc) : Outcome String _) ⟨docs, ⟨[], []⟩⟩ := ⟨hget.symm, rfl⟩
    have hwrite : LspOp.Step classTreeSitter (.indexReplace "a.py" [classSymbol])
        ⟨docs, ⟨[], []⟩⟩ (Except.ok 2 : Outcome String ℕ)
        ⟨docs, ⟨flatten "a.py" [classSymbol], []⟩⟩ := ⟨rfl, rfl⟩
    rw [Calls, program_openDocument]
    apply Program.Exec.step hopened
    apply Program.Exec.step hread
    apply Program.Exec.step hwrite
    apply Program.Exec.ret
  · rfl

/-- The method is nested in the class. -/
theorem not_flatText_class :
  ¬ FlatText classTreeSitter "a.py" classSource
  := by
  intro hflat
  have hchildren := hflat _ freshSymbols_class classSymbol List.mem_cons_self
  cases hchildren

/-- Opening the class: neither its count nor the number of all symbols agrees. -/
theorem counts_agree_iff_class :
  ∃ s r s', Trace (CallStep classTreeSitter) (LspStore.new ⟨[], []⟩)
      [((.openDocument "a.py" classSource 1, .ok (.symbols 1)), s)]
    ∧ Calls classTreeSitter s .buildIndex r s'
    ∧ ¬ CountAgrees "a.py" 1 s
    ∧ r ≠ .ok (.indexed 1 1)
  := by
  obtain ⟨s, hopen, -⟩ := calls_open_class
  obtain ⟨r, s', hbuild⟩ := calls_total classTreeSitter s .buildIndex
  have htrace : Trace (CallStep classTreeSitter) (LspStore.new ⟨[], []⟩)
      [((.openDocument "a.py" classSource 1, .ok (.symbols 1)), s)] := CallStep.cons hopen Trace.nil
  obtain ⟨hevents, htotal⟩ := counts_agree_iff classTreeSitter ⟨[], []⟩ htrace
  use s, r, s', htrace, hbuild
  constructor
  · intro hagrees
    apply not_flatText_class ((hevents.1 _ _ _ .opens rfl).mp hagrees)
  · rintro rfl
    have hflat := (htotal [⟨"a.py", classSource, 1, 1⟩] 1 1 s' rfl (List.nodup_singleton _)
      hbuild).mp rfl
    apply not_flatText_class (hflat _ List.mem_cons_self)

/-- The count of the class is not the number of its rows. -/
theorem not_counts_agree_class :
  ¬ ∀ (treeSitter : TreeSitter) (s s' : LspStore) (path content : String) (version : Int64)
      (count : ℕ), s = LspStore.new ⟨[], []⟩ →
      Calls treeSitter s (.openDocument path content version) (.ok (.symbols count)) s' →
        (rowsAt path s'.index.tables).length = count
  := by
  intro hall
  obtain ⟨s, hopen, htables⟩ := calls_open_class
  have hcount := hall classTreeSitter _ s "a.py" classSource 1 1 rfl hopen
  rw [htables, rowsAt_flatten_self] at hcount
  cases hcount

end Nested

end OrchestraRag
