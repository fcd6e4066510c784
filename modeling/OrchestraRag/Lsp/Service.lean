import OrchestraRag.Library.Trace
import OrchestraRag.Lsp.Methods
import OrchestraRag.Parser.Tools

/-!
# One extractor for all documents

The parse tools and the document store extract symbols under mutexes that all calls share.  A
call leaves them unharmed when none is poisoned and it answered as with new extractors
(`Unharmed`).  A history of calls is unharmed throughout exactly if every text that is given
to an extractor can have its imports cut (`unharmed_iff`).
-/

namespace OrchestraRag

/-! ### The document store -/

section DocumentStore

variable (treeSitter : TreeSitter)

/-- The symbols that a new extractor finds. -/
def freshSymbols (content : String) (language : Option String) : Outcome String (List CodeSymbol) :=
  (parseSymbols treeSitter content language .new).1

/-- Every import and export statement of the text, in its language if it has one, can be cut. -/
def TextCuttable (content : String) (language : Option String) : Prop :=
  ∀ lang, language = some lang → SymbolExtractor.ImportsCuttable treeSitter content lang

/-- The extractor is coherent and the mutex is not poisoned. -/
structure DocumentStore.Sound (store : DocumentStore) : Prop where
  coherent : store.extractor.parser.Coherent treeSitter
  notPoisoned : store.poisoned = false

variable {treeSitter}

theorem freshSymbols_okIff (content : String) (language : Option String) :
  (freshSymbols treeSitter content language).OkIff (TextCuttable treeSitter content language)
  := by
  cases language with
  | none =>
      apply (Outcome.OkIff.pure []).congr
      simp [TextCuttable]
  | some lang =>
      have hpanicked := @SymbolExtractor.extractFresh_panicked_iff treeSitter content lang
      rw [SymbolExtractor.extractFresh] at hpanicked
      have hcuttable : TextCuttable treeSitter content (some lang)
          ↔ SymbolExtractor.ImportsCuttable treeSitter content lang := by
        simp [TextCuttable]
      rw [hcuttable, ← not_not (a := SymbolExtractor.ImportsCuttable treeSitter content lang),
        ← hpanicked]
      simp only [freshSymbols, parseSymbols]
      rcases SymbolExtractor.new.extractSymbols treeSitter content lang with
        ⟨(e | _) | symbols, extractor⟩
      · apply (Outcome.OkIff.pure []).congr
        simp [Outcome.Panicked]
      · constructor
        · intro h
          apply absurd rfl h
        · intro _
          rfl
      · apply (Outcome.OkIff.pure symbols).congr
        simp [Outcome.Panicked]

/-- A coherent extractor finds the symbols that a new one finds. -/
theorem parseSymbols_eq {extractor : SymbolExtractor} (h : extractor.parser.Coherent treeSitter)
    (content : String) (language : Option String) :
  ∃ extractor', extractor'.parser.Coherent treeSitter
    ∧ parseSymbols treeSitter content language extractor
      = (freshSymbols treeSitter content language, extractor')
  := by
  cases language with
  | none => exact ⟨extractor, h, rfl⟩
  | some lang =>
      obtain ⟨hfresh, hcoherent⟩ := SymbolExtractor.extractSymbols_eq_fresh h content lang
      rw [SymbolExtractor.extractFresh] at hfresh
      use (extractor.extractSymbols treeSitter content lang).2, hcoherent
      simp only [freshSymbols, parseSymbols]
      rcases hextract : extractor.extractSymbols treeSitter content lang with ⟨x, extractor'⟩
      rcases hnew : SymbolExtractor.new.extractSymbols treeSitter content lang with ⟨y, new'⟩
      rw [hextract, hnew] at hfresh
      obtain rfl := hfresh
      rcases x with (e | _) | symbols
      · rfl
      · rfl
      · rfl

namespace DocumentStore

variable {store : DocumentStore}

/-- What opening a document does to a sound store. -/
theorem open_eq (hs : store.Sound treeSitter) (path content : String) (version : Int64) :
  ∃ extractor, extractor.parser.Coherent treeSitter
    ∧ store.open_ treeSitter path content version
      = match freshSymbols treeSitter content (detectLanguage path) with
        | .ok symbols =>
            (.ok symbols.length,
              ⟨store.documents.insert
                { path, content, version, symbols, language := detectLanguage path },
                extractor, false⟩)
        | .error e => (.error e, ⟨store.documents, extractor, true⟩)
  := by
  obtain ⟨extractor, hcoherent, hparse⟩ :=
    parseSymbols_eq hs.coherent content (detectLanguage path)
  use extractor, hcoherent
  simp only [open_, hs.notPoisoned, Document.new, hparse]
  rcases freshSymbols treeSitter content (detectLanguage path) with e | symbols
  · rfl
  · rfl

/-- What updating a document does to a sound store. -/
theorem update_eq (hs : store.Sound treeSitter) {path : String} {old : Document}
    (hget : store.documents.get path = some old) (content : String) (version : Int64) :
  ∃ extractor, extractor.parser.Coherent treeSitter
    ∧ store.update treeSitter path content version
      = match freshSymbols treeSitter content old.language with
        | .ok symbols =>
            (.ok symbols.length,
              ⟨store.documents.insert
                { old with content := content, version := version, symbols := symbols },
                extractor, false⟩)
        | .error e =>
            (.error e,
              ⟨store.documents.insert { old with content := content, version := version },
                extractor, true⟩)
  := by
  obtain ⟨extractor, hcoherent, hparse⟩ := parseSymbols_eq hs.coherent content old.language
  use extractor, hcoherent
  simp only [update, hs.notPoisoned, hget, Document.update, hparse]
  rcases freshSymbols treeSitter content old.language with e | symbols
  · rfl
  · rfl

/-- A sound store refuses to update a document that is not open. -/
theorem update_of_get_none {store : DocumentStore} (hs : store.Sound treeSitter)
    {path content : String} {version : Int64} (hget : store.documents.get path = none) :
  store.update treeSitter path content version
    = (.error (.err ("document not open: " ++ path)), store)
  := by
  simp only [update, hs.notPoisoned, hget]
  rfl

end DocumentStore

end DocumentStore

/-! ### The LSP store -/

section Calls

variable {treeSitter : TreeSitter} {s s' : LspStore} {r : Outcome String LspReply}

/-- Syncing leaves the documents, and ends the same from every store with the same index that
knows the same document at the path. -/
theorem exec_syncing_same {path : String} {count : ℕ}
    (h : Program.Exec (LspOp.Step treeSitter) (LspThread.syncing path count) s r s') :
  s'.docs = s.docs
    ∧ ∀ t : LspStore, t.docs.get path = s.docs.get path → t.index = s.index →
      ∃ t', Program.Exec (LspOp.Step treeSitter) (LspThread.syncing path count) t r t'
  := by
  obtain ⟨x, s₁, ⟨hx, hs₁⟩, h⟩ := Program.exec_step.mp h
  rw [hs₁] at h
  rw [← hx]
  have hget : ∀ t : LspStore, t.docs.get path = x →
      LspOp.Step treeSitter (.docsGet path) t x t := fun t ht => ⟨ht.symm, rfl⟩
  clear hx
  rcases (x : Outcome String (Option Document)) with e | (_ | doc)
  · obtain ⟨rfl, rfl⟩ := Program.exec_ret.mp h
    use rfl
    intro t ht _
    exact ⟨t, Program.Exec.step (hget t ht) Program.Exec.ret⟩
  · obtain ⟨rfl, rfl⟩ := Program.exec_ret.mp h
    use rfl
    intro t ht _
    exact ⟨t, Program.Exec.step (hget t ht) Program.Exec.ret⟩
  · obtain ⟨y, hreplace, hdocs, rfl⟩ := exec_writing h
    use hdocs
    intro t ht hindex
    rw [← hindex] at hreplace
    have hwrite : LspOp.Step treeSitter (.indexReplace doc.path doc.symbols) t y
        ⟨t.docs, s'.index⟩ := ⟨hreplace, rfl⟩
    exact ⟨_, Program.Exec.step (hget t ht) (Program.Exec.step hwrite Program.Exec.ret)⟩

theorem sound_new :
  DocumentStore.new.Sound treeSitter
  := ⟨ParserWrapper.coherent_new treeSitter, rfl⟩

theorem get_insert_sound (documents : Documents) (extractor : SymbolExtractor) (doc : Document) :
  DocumentStore.get ⟨documents.insert doc, extractor, false⟩ doc.path = .ok (some doc)
  := congrArg Except.ok (documents.get_insert_self doc)

/-- Opening a document in a sound store poisons the mutex exactly if the text cannot be cut, and
ends as in a new store on the same index. -/
theorem calls_openDocument_same {path content : String} {version : Int64}
    (h : Calls treeSitter s (.openDocument path content version) r s')
    (hs : s.docs.Sound treeSitter) :
  s'.docs.extractor.parser.Coherent treeSitter
    ∧ (s'.docs.poisoned = true ↔ ¬ TextCuttable treeSitter content (detectLanguage path))
    ∧ ∃ t, Calls treeSitter (LspStore.new s.index) (.openDocument path content version) r t
  := by
  rw [Calls, program_openDocument] at h
  simp only [Calls, program_openDocument]
  obtain ⟨x, s₁, ⟨hopen, hindex⟩, h⟩ := Program.exec_step.mp h
  obtain ⟨extractor, hcoherent, heq⟩ := DocumentStore.open_eq hs path content version
  obtain ⟨extractor', -, hnew⟩ := DocumentStore.open_eq sound_new path content version
  have hok := @freshSymbols_okIff treeSitter content (detectLanguage path)
  by_cases hcuttable : TextCuttable treeSitter content (detectLanguage path)
  · obtain ⟨symbols, hsymbols⟩ := hok.ok hcuttable
    rw [hsymbols] at heq hnew
    obtain ⟨rfl, hdocs⟩ := Prod.mk.inj (hopen.symm.trans heq)
    obtain ⟨hdocs', hsame⟩ := exec_syncing_same h
    let doc : Document := { path, content, version, symbols, language := detectLanguage path }
    let t : LspStore := ⟨⟨DocumentStore.new.documents.insert doc, extractor', false⟩, s.index⟩
    have hget : t.docs.get path = s₁.docs.get path := by
      rw [hdocs]
      apply (get_insert_sound _ _ doc).trans (get_insert_sound _ _ doc).symm
    obtain ⟨t', ht⟩ := hsame t hget hindex.symm
    have hopened : LspOp.Step treeSitter (.docsOpen path content version) (LspStore.new s.index)
        (Except.ok symbols.length : Outcome String ℕ) t := ⟨hnew, rfl⟩
    rw [hdocs', hdocs]
    use hcoherent, iff_of_false Bool.false_ne_true (not_not.mpr hcuttable)
    exact ⟨t', Program.Exec.step hopened ht⟩
  · rw [hok.panicked hcuttable] at heq hnew
    obtain ⟨rfl, hdocs⟩ := Prod.mk.inj (hopen.symm.trans heq)
    obtain ⟨rfl, rfl⟩ := Program.exec_ret.mp h
    let t : LspStore := ⟨⟨DocumentStore.new.documents, extractor', true⟩, s.index⟩
    have hopened : LspOp.Step treeSitter (.docsOpen path content version) (LspStore.new s.index)
        (Except.error .panicked : Outcome String ℕ) t := ⟨hnew, rfl⟩
    rw [hdocs]
    use hcoherent, iff_of_true rfl hcuttable
    exact ⟨t, Program.Exec.step hopened Program.Exec.ret⟩

/-- The store with a new extractor and a new mutex. -/
def LspStore.renewed (s : LspStore) : LspStore :=
  ⟨⟨s.docs.documents, .new, false⟩, s.index⟩

theorem sound_renewed (s : LspStore) :
  s.renewed.docs.Sound treeSitter
  := ⟨ParserWrapper.coherent_new treeSitter, rfl⟩

/-- Updating a document that is not open fails and changes nothing. -/
theorem calls_updateClosed_same {path content : String} {version : Int64}
    (h : Calls treeSitter s (.updateDocument path content version) r s')
    (hs : s.docs.Sound treeSitter) (hget : s.docs.documents.get path = none) :
  s'.docs = s.docs
    ∧ ∃ t, Calls treeSitter s.renewed (.updateDocument path content version) r t
  := by
  rw [Calls, program_updateDocument] at h
  simp only [Calls, program_updateDocument]
  obtain ⟨x, s₁, ⟨hupdate, hindex⟩, h⟩ := Program.exec_step.mp h
  rw [DocumentStore.update_of_get_none hs hget] at hupdate
  obtain ⟨rfl, hdocs⟩ := Prod.mk.inj hupdate
  obtain ⟨rfl, rfl⟩ := Program.exec_ret.mp h
  have hupdated : LspOp.Step treeSitter (.docsUpdate path content version) s.renewed
      (Except.error (.err ("document not open: " ++ path)) : Outcome String ℕ) s.renewed :=
    ⟨DocumentStore.update_of_get_none (sound_renewed s) hget, rfl⟩
  exact ⟨hdocs.symm, _, Program.Exec.step hupdated Program.Exec.ret⟩

/-- Updating an open document in a sound store poisons the mutex exactly if its new text cannot be
cut, and ends as in the renewed store. -/
theorem calls_updateOpen_same {path content : String} {version : Int64} {old : Document}
    (h : Calls treeSitter s (.updateDocument path content version) r s')
    (hs : s.docs.Sound treeSitter) (hget : s.docs.documents.get path = some old) :
  s'.docs.extractor.parser.Coherent treeSitter
    ∧ (s'.docs.poisoned = true ↔ ¬ TextCuttable treeSitter content old.language)
    ∧ ∃ t, Calls treeSitter s.renewed (.updateDocument path content version) r t
  := by
  rw [Calls, program_updateDocument] at h
  simp only [Calls, program_updateDocument]
  obtain ⟨x, s₁, ⟨hupdate, hindex⟩, h⟩ := Program.exec_step.mp h
  have hpath := Documents.path_of_get hget
  obtain ⟨extractor, hcoherent, heq⟩ := DocumentStore.update_eq hs hget content version
  obtain ⟨extractor', -, hnew⟩ :=
    DocumentStore.update_eq (sound_renewed s) hget content version
  have hok := @freshSymbols_okIff treeSitter content old.language
  by_cases hcuttable : TextCuttable treeSitter content old.language
  · obtain ⟨symbols, hsymbols⟩ := hok.ok hcuttable
    rw [hsymbols] at heq hnew
    obtain ⟨rfl, hdocs⟩ := Prod.mk.inj (hupdate.symm.trans heq)
    obtain ⟨hdocs', hsame⟩ := exec_syncing_same h
    let doc : Document :=
      { old with content := content, version := version, symbols := symbols }
    obtain rfl : doc.path = path := hpath
    let t : LspStore := ⟨⟨s.docs.documents.insert doc, extractor', false⟩, s.index⟩
    have hgot : t.docs.get doc.path = s₁.docs.get doc.path := by
      rw [hdocs]
      apply (get_insert_sound _ _ doc).trans (get_insert_sound _ _ doc).symm
    obtain ⟨t', ht⟩ := hsame t hgot hindex.symm
    have hupdated : LspOp.Step treeSitter (.docsUpdate doc.path content version) s.renewed
        (Except.ok symbols.length : Outcome String ℕ) t := ⟨hnew, rfl⟩
    rw [hdocs', hdocs]
    use hcoherent, iff_of_false Bool.false_ne_true (not_not.mpr hcuttable)
    exact ⟨t', Program.Exec.step hupdated ht⟩
  · rw [hok.panicked hcuttable] at heq hnew
    obtain ⟨rfl, hdocs⟩ := Prod.mk.inj (hupdate.symm.trans heq)
    obtain ⟨rfl, rfl⟩ := Program.exec_ret.mp h
    have hupdated : LspOp.Step treeSitter (.docsUpdate path content version) s.renewed
        (Except.error .panicked : Outcome String ℕ)
        ⟨⟨s.docs.documents.insert { old with content := content, version := version },
          extractor', true⟩, s.index⟩ := ⟨hnew, rfl⟩
    rw [hdocs]
    use hcoherent, iff_of_true rfl hcuttable
    exact ⟨_, Program.Exec.step hupdated Program.Exec.ret⟩

/-- Updating a document in a sound store poisons the mutex exactly if it is open and its new text
cannot be cut, and ends as in the renewed store. -/
theorem calls_updateDocument_same {path content : String} {version : Int64}
    (h : Calls treeSitter s (.updateDocument path content version) r s')
    (hs : s.docs.Sound treeSitter) :
  s'.docs.extractor.parser.Coherent treeSitter
    ∧ (s'.docs.poisoned = true ↔ ¬ ∀ doc, s.docs.documents.get path = some doc →
        TextCuttable treeSitter content doc.language)
    ∧ ∃ t, Calls treeSitter s.renewed (.updateDocument path content version) r t
  := by
  cases hget : s.docs.documents.get path with
  | none =>
      obtain ⟨hdocs, hsame⟩ := calls_updateClosed_same h hs hget
      rw [hdocs]
      refine ⟨hs.coherent, iff_of_false (ne_true_of_eq_false hs.notPoisoned) ?_, hsame⟩
      rw [not_not]
      rintro doc ⟨⟩
  | some old =>
      obtain ⟨hcoherent, hpoisoned, hsame⟩ := calls_updateOpen_same h hs hget
      refine ⟨hcoherent, ?_, hsame⟩
      simp only [Option.some.injEq, forall_eq']
      apply hpoisoned

end Calls

/-! ### The service -/

/-- The parse tools and the LSP store. -/
structure Service where
  tools : ParseTools
  lsp : LspStore

/-- A call and what it returned. -/
inductive ServiceEvent where
  | parseFile (args : Json) (task : Task) (result : Outcome String Json)
  | getSymbols (args : Json) (task : Task) (result : Outcome String Json)
  | getImports (args : Json) (task : Task) (result : Outcome String Json)
  | openDocument (path content : String) (version : Int64) (result : Outcome String LspReply)
  | updateDocument (path content : String) (version : Int64) (result : Outcome String LspReply)

namespace Service

/-- A service without documents on a given index. -/
def new (index : LspDb) : Service where
  tools := .new
  lsp := .new index

/-- A mutex is poisoned. -/
def Poisoned (s : Service) : Prop :=
  s.tools.Poisoned ∨ s.lsp.docs.poisoned = true

variable (treeSitter : TreeSitter)

/-- One call. -/
def Serves (s : Service) : ServiceEvent → Service → Prop
  | .parseFile args task result, s' =>
      s.tools.handleParseFile treeSitter task args = (result, s'.tools) ∧ s'.lsp = s.lsp
  | .getSymbols args task result, s' =>
      s.tools.handleGetSymbols treeSitter task args = (result, s'.tools) ∧ s'.lsp = s.lsp
  | .getImports args task result, s' =>
      s.tools.handleGetImports treeSitter task args = (result, s'.tools) ∧ s'.lsp = s.lsp
  | .openDocument path content version result, s' =>
      Calls treeSitter s.lsp (.openDocument path content version) result s'.lsp
        ∧ s'.tools = s.tools
  | .updateDocument path content version result, s' =>
      Calls treeSitter s.lsp (.updateDocument path content version) result s'.lsp
        ∧ s'.tools = s.tools

/-- The call answered as with new tools, as a new store on the same index, or as the store with
the same documents, a new extractor and a new mutex. -/
def AnswersAsFresh (s : Service) : ServiceEvent → Prop
  | .parseFile args task result =>
      result = (ParseTools.new.handleParseFile treeSitter task args).1
  | .getSymbols args task result =>
      result = (ParseTools.new.handleGetSymbols treeSitter task args).1
  | .getImports args task result =>
      result = (ParseTools.new.handleGetImports treeSitter task args).1
  | .openDocument path content version result =>
      ∃ t, Calls treeSitter (LspStore.new s.lsp.index) (.openDocument path content version)
        result t
  | .updateDocument path content version result =>
      ∃ t, Calls treeSitter s.lsp.renewed (.updateDocument path content version) result t

/-- The call poisoned no mutex and answered as a fresh service. -/
structure Unharmed (s : Service) (e : ServiceEvent) (s' : Service) : Prop where
  notPoisoned : ¬ s'.Poisoned
  answer : s.AnswersAsFresh treeSitter e

/-- If the call gives a text to an extractor, its import and export statements can be cut. -/
def EventCuttable (s : Service) : ServiceEvent → Prop
  | .parseFile args _ _ => ParseTools.RequestCuttable treeSitter args
  | .getSymbols args _ _ => ParseTools.RequestCuttable treeSitter args
  | .getImports args _ _ => ParseTools.RequestCuttable treeSitter args
  | .openDocument path content _ _ => TextCuttable treeSitter content (detectLanguage path)
  | .updateDocument path content _ _ =>
      ∀ doc, s.lsp.docs.documents.get path = some doc →
        TextCuttable treeSitter content doc.language

/-- All extractors and parsers are coherent and no mutex is poisoned. -/
structure Sound (s : Service) : Prop where
  tools : s.tools.Coherent treeSitter
  docs : s.lsp.docs.extractor.parser.Coherent treeSitter
  notPoisoned : ¬ s.Poisoned

variable {treeSitter} {s s' : Service}

theorem Sound.lsp (hs : s.Sound treeSitter) :
  s.lsp.docs.Sound treeSitter
  := by
  use hs.docs
  rw [← Bool.not_eq_true]
  apply mt Or.inr hs.notPoisoned

/-- What a call of a parse tool does to a sound service. -/
theorem serves_tools {call : ParseTools → Outcome String Json × ParseTools} {P : Prop}
    (hcall : ParseTools.Answers treeSitter call P) {result : Outcome String Json}
    (h : call s.tools = (result, s'.tools) ∧ s'.lsp = s.lsp) (hs : s.Sound treeSitter) :
  s'.tools.Coherent treeSitter ∧ s'.lsp.docs.extractor.parser.Coherent treeSitter
    ∧ (s'.Poisoned ↔ ¬ P) ∧ result = (call .new).1
  := by
  obtain ⟨hresult, hlsp⟩ := h
  have hsound : ¬ s.tools.Poisoned := mt Or.inl hs.notPoisoned
  have hfresh := hcall.fresh s.tools hs.tools hsound
  have hcoherent := hcall.coherent s.tools hs.tools hsound
  have hpoisoned := hcall.poisoned s.tools hs.tools hsound
  rw [hresult] at hfresh hcoherent hpoisoned
  use hcoherent
  rw [hlsp, Poisoned, hlsp, hs.lsp.notPoisoned]
  use hs.docs
  constructor
  · simpa using hpoisoned
  · apply hfresh

/-- What a call of the store does to a sound service. -/
theorem serves_lsp {P Q : Prop} (hs : s.Sound treeSitter) (htools : s'.tools = s.tools)
    (h : s'.lsp.docs.extractor.parser.Coherent treeSitter
      ∧ (s'.lsp.docs.poisoned = true ↔ ¬ P) ∧ Q) :
  s'.tools.Coherent treeSitter ∧ s'.lsp.docs.extractor.parser.Coherent treeSitter
    ∧ (s'.Poisoned ↔ ¬ P) ∧ Q
  := by
  obtain ⟨hcoherent, hpoisoned, hanswer⟩ := h
  have hsound : ¬ s.tools.Poisoned := mt Or.inl hs.notPoisoned
  rw [htools, Poisoned, htools]
  use hs.tools, hcoherent
  constructor
  · simpa [hsound] using hpoisoned
  · apply hanswer

/-- A call on a sound service answers as a fresh one, and poisons a mutex exactly if it extracts
from a text that cannot be cut. -/
theorem serves_spec {e : ServiceEvent} (h : s.Serves treeSitter e s') (hs : s.Sound treeSitter) :
  s'.tools.Coherent treeSitter ∧ s'.lsp.docs.extractor.parser.Coherent treeSitter
    ∧ (s'.Poisoned ↔ ¬ s.EventCuttable treeSitter e) ∧ s.AnswersAsFresh treeSitter e
  := by
  cases e with
  | parseFile args task result =>
      apply serves_tools (ParseTools.handleParseFile_answers task args) h hs
  | getSymbols args task result =>
      apply serves_tools (ParseTools.handleGetSymbols_answers task args) h hs
  | getImports args task result =>
      apply serves_tools (ParseTools.handleGetImports_answers task args) h hs
  | openDocument path content version result =>
      apply serves_lsp hs h.2 (calls_openDocument_same h.1 hs.lsp)
  | updateDocument path content version result =>
      apply serves_lsp hs h.2 (calls_updateDocument_same h.1 hs.lsp)

/-- From a new service, every call of a history leaves it unharmed exactly if no call extracts
from a text that cannot be cut. -/
theorem unharmed_iff (treeSitter : TreeSitter) (index : LspDb)
    {history : List (ServiceEvent × Service)}
    (h : Trace (Serves treeSitter) (new index) history) :
  Trace.Throughout (Unharmed treeSitter) (new index) history
    ↔ Trace.Throughout (fun s e _ => s.EventCuttable treeSitter e) (new index) history
  := by
  have hiff : ∀ s e s', Sound treeSitter s → Serves treeSitter s e s' →
      (Unharmed treeSitter s e s' ↔ s.EventCuttable treeSitter e) := by
    intro s e s' hs hstep
    obtain ⟨-, -, hpoisoned, hanswer⟩ := serves_spec hstep hs
    constructor
    · intro hunharmed
      apply not_not.mp (mt hpoisoned.mpr hunharmed.notPoisoned)
    · intro hcuttable
      exact ⟨mt hpoisoned.mp (not_not.mpr hcuttable), hanswer⟩
  have hinv : ∀ s e s', Sound treeSitter s → Serves treeSitter s e s' →
      Unharmed treeSitter s e s' → Sound treeSitter s' := by
    intro s e s' hs hstep hunharmed
    obtain ⟨htools, hdocs, -, -⟩ := serves_spec hstep hs
    exact ⟨htools, hdocs, hunharmed.notPoisoned⟩
  apply Trace.throughout_iff hiff hinv h
  use ParseTools.coherent_new, ParserWrapper.coherent_new treeSitter
  rintro (hpoisoned | hpoisoned)
  · apply ParseTools.not_poisoned_new hpoisoned
  · cases hpoisoned

/-! ### Two histories -/

/-- The arguments of a request for the symbols of a text. -/
def symbolArgs (content language : String) : Json :=
  .object [("content", .string content), ("language", .string language)]

def sampleTask : Task where
  elapsedMs := 1
  joinError := "task 1 panicked"

theorem requestCuttable_symbolArgs {content language : String} :
  ParseTools.RequestCuttable treeSitter (symbolArgs content language)
    ↔ SymbolExtractor.ImportsCuttable treeSitter content language
  := by
  have hrequest : parseRequest (symbolArgs content language) = .ok ⟨"", content, language⟩ := rfl
  simp [ParseTools.RequestCuttable, hrequest]

theorem handleGetSymbols_symbolArgs (treeSitter : TreeSitter) (content language : String)
    (tools : ParseTools) :
  tools.handleGetSymbols treeSitter sampleTask (symbolArgs content language)
    = tools.answerSymbols treeSitter sampleTask ⟨"", content, language⟩
      (ParseTools.symbolsResult (symbolArgs content language) ⟨"", content, language⟩)
  := rfl

theorem cuttable_mainSource :
  SymbolExtractor.ImportsCuttable sampleTreeSitter mainSource "rust"
  := by
  by_contra hcuttable
  have hpanicked := (SymbolExtractor.extractFresh_panicked_iff _ _).mpr hcuttable
  rw [extractFresh_mainSource] at hpanicked
  cases hpanicked

/-- The symbols of a text that can be cut are asked for before and after it is opened. -/
theorem unharmed_mainSource :
  ∃ (result result' : Outcome String Json) (s s' s'' : Service),
    let history := [(.getSymbols (symbolArgs mainSource "rust") sampleTask result, s),
      (.openDocument "main.rs" mainSource 1 (.ok (.symbols 1)), s'),
      (.getSymbols (symbolArgs mainSource "rust") sampleTask result', s'')]
    Trace (Serves sampleTreeSitter) (new ⟨[], []⟩) history
      ∧ Trace.Throughout (Unharmed sampleTreeSitter) (new ⟨[], []⟩) history
  := by
  let args := symbolArgs mainSource "rust"
  rcases hfirst : ParseTools.new.handleGetSymbols sampleTreeSitter sampleTask args
    with ⟨result, tools⟩
  rcases hlater : tools.handleGetSymbols sampleTreeSitter sampleTask args with ⟨result', tools'⟩
  obtain ⟨extractor, -, hopen⟩ := calls_open_mainSource
  let s : Service := ⟨tools, .new ⟨[], []⟩⟩
  let s' : Service := ⟨tools, indexedMain extractor⟩
  let s'' : Service := ⟨tools', indexedMain extractor⟩
  use result, result', s, s', s''
  have hserves : (new ⟨[], []⟩).Serves sampleTreeSitter (.getSymbols args sampleTask result) s :=
    ⟨hfirst, rfl⟩
  have hopens : s.Serves sampleTreeSitter
      (.openDocument "main.rs" mainSource 1 (.ok (.symbols 1))) s' := ⟨hopen, rfl⟩
  have hserves' : s'.Serves sampleTreeSitter (.getSymbols args sampleTask result') s'' :=
    ⟨hlater, rfl⟩
  have htrace := Trace.cons hserves (Trace.cons hopens (Trace.cons hserves' Trace.nil))
  use htrace
  apply (unharmed_iff sampleTreeSitter ⟨[], []⟩ htrace).mpr
  have hsymbols := requestCuttable_symbolArgs.mpr cuttable_mainSource
  have hdetects : detectLanguage "main.rs" = some "rust" := by decide
  refine ⟨hsymbols, ?_, hsymbols, trivial⟩
  intro lang hlang
  obtain rfl := Option.some.inj (hdetects.symm.trans hlang)
  apply cuttable_mainSource

/-- A call for the symbols of `longImport` poisons the mutex of the extractor, and the next call
for those of `mainSource` fails. -/
theorem not_unharmed_longImport :
  ∃ s : Service,
    Trace (Serves sampleTreeSitter) (new ⟨[], []⟩)
      [(.getSymbols (symbolArgs longImport "javascript") sampleTask
          (.error (.err "spawn_blocking panicked: task 1 panicked")), s),
        (.getSymbols (symbolArgs mainSource "rust") sampleTask
          (.error (.err ParseTools.lockPoisoned)), s)]
    ∧ s.Poisoned
    ∧ ¬ s.AnswersAsFresh sampleTreeSitter
      (.getSymbols (symbolArgs mainSource "rust") sampleTask
        (.error (.err ParseTools.lockPoisoned)))
  := by
  obtain ⟨extractor, -, hlong⟩ := ParseTools.answerSymbols_eq ParseTools.coherent_new
    ParseTools.not_poisoned_new sampleTask ⟨"", longImport, "javascript"⟩
    (ParseTools.symbolsResult (symbolArgs longImport "javascript") ⟨"", longImport, "javascript"⟩)
  obtain ⟨extractor', -, hmain⟩ := ParseTools.answerSymbols_eq ParseTools.coherent_new
    ParseTools.not_poisoned_new sampleTask ⟨"", mainSource, "rust"⟩
    (ParseTools.symbolsResult (symbolArgs mainSource "rust") ⟨"", mainSource, "rust"⟩)
  rw [extractFresh_longImport, ← handleGetSymbols_symbolArgs] at hlong
  rw [extractFresh_mainSource, ← handleGetSymbols_symbolArgs] at hmain
  let s : Service := ⟨⟨⟨extractor, true⟩, .new .new⟩, .new ⟨[], []⟩⟩
  have hpoisoned : s.Poisoned := Or.inl (Or.inl rfl)
  have hfirst : (new ⟨[], []⟩).Serves sampleTreeSitter
      (.getSymbols (symbolArgs longImport "javascript") sampleTask
        (.error (.err "spawn_blocking panicked: task 1 panicked"))) s := ⟨hlong, rfl⟩
  have hsecond : s.Serves sampleTreeSitter
      (.getSymbols (symbolArgs mainSource "rust") sampleTask
        (.error (.err ParseTools.lockPoisoned))) s := ⟨rfl, rfl⟩
  use s, Trace.cons hfirst (Trace.cons hsecond Trace.nil), hpoisoned
  intro hanswer
  cases hanswer.trans (congrArg Prod.fst hmain)

end Service

end OrchestraRag
