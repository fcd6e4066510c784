import OrchestraRag.Library.Trace
import OrchestraRag.Lsp.Methods

/-!
# Calls one after another

Without database errors, calls that run one after another keep the index in step with the
documents, whether they succeed or fail, with one exception: `buildIndex` clears the index
before it finds the mutex of the documents poisoned (`inStep_of_calls`).  Hence a history
maintains the index throughout exactly if it never rebuilds on a poisoned mutex
(`maintained_iff`).
-/

namespace OrchestraRag

section Calls

variable {treeSitter : TreeSitter} {s s' : LspStore} {r : Outcome String LspReply}

/-! ### The index stays in step -/

namespace LspStore

/-- Storing a document and replacing its rows keeps the index in step. -/
theorem InStep.replace (hs : s.InStep) {doc : Document}
    (hdocs : s'.docs.documents = s.docs.documents.insert doc)
    (htables : s'.index.tables
      = deleteRows doc.path s.index.tables ++ flatten doc.path doc.symbols) :
  s'.InStep
  := by
  intro path
  rw [InStepAt, htables, hdocs, rowsAt_append]
  by_cases hpath : path = doc.path
  · rw [hpath, rowsAt_deleteRows_self, rowsAt_flatten_self, openRows_insert_self,
      List.nil_append]
  · rw [rowsAt_deleteRows_of_ne hpath, rowsAt_flatten_of_ne hpath, openRows_insert_of_ne hpath,
      List.append_nil]
    apply hs path

/-- Removing a document and its rows keeps the index in step. -/
theorem InStep.remove (hs : s.InStep) {path : String}
    (hdocs : s'.docs.documents = s.docs.documents.remove path)
    (htables : s'.index.tables = deleteRows path s.index.tables) :
  s'.InStep
  := by
  intro path'
  rw [InStepAt, htables, hdocs]
  by_cases hpath : path' = path
  · rw [hpath, rowsAt_deleteRows_self, openRows_remove_self]
  · rw [rowsAt_deleteRows_of_ne hpath, openRows_remove_of_ne hpath]
    apply hs path'

/-- An index in step stays so when neither its rows nor the rows it should have change. -/
theorem InStep.of_openRows (hs : s.InStep) (hindex : s'.index.tables = s.index.tables)
    (hopen : ∀ path, openRows s'.docs.documents path = openRows s.docs.documents path) :
  s'.InStep
  := by
  intro path
  rw [InStepAt, hindex, hopen path]
  apply hs path

end LspStore

/-- Without database errors a call keeps the index in step, unless it rebuilds the index while
the mutex of the documents is poisoned. -/
theorem inStep_of_calls {call : LspCall} (h : Calls treeSitter s call r s') (hs : s.InStep)
    (hreliable : s.index.Reliable) (hbuild : call = .buildIndex → s.docs.poisoned = false) :
  s'.InStep
  := by
  cases call with
  | openDocument path content version =>
      rcases calls_openDocument h with
        ⟨e, -, hdocs, hindex, -⟩ | ⟨doc, x, rfl, -, -, hdocs, -, hreplace, -⟩
      · apply hs.of_openRows (congrArg Sql.Db.tables hindex)
        simp only [hdocs, implies_true]
      · obtain ⟨db, hcall, -, htables⟩ :=
          SymbolIndex.replaceDocumentSymbols_reliable doc.path doc.symbols hreliable
        obtain ⟨-, rfl⟩ := Prod.mk.inj (hcall.symm.trans hreplace)
        apply hs.replace hdocs htables
  | updateDocument path content version =>
      rcases calls_updateDocument h with ⟨e, -, rfl, -⟩
        | ⟨e, old, doc, -, hold, rfl, -, -, hsymbols, hdocs, -, hindex, -⟩
        | ⟨old, doc, x, -, rfl, -, -, hdocs, -, hreplace, -⟩
      · apply hs
      · apply hs.of_openRows (congrArg Sql.Db.tables hindex)
        intro path
        rw [hdocs]
        by_cases hpath : path = doc.path
        · rw [hpath, openRows_insert_self, hsymbols, openRows_of_get hold]
        · apply openRows_insert_of_ne hpath
      · obtain ⟨db, hcall, -, htables⟩ :=
          SymbolIndex.replaceDocumentSymbols_reliable doc.path doc.symbols hreliable
        obtain ⟨-, rfl⟩ := Prod.mk.inj (hcall.symm.trans hreplace)
        apply hs.replace hdocs htables
  | closeDocument path =>
      rcases calls_closeDocument h with
        ⟨-, rfl, -⟩ | ⟨-, -, hdocs, ⟨hget, hindex, -⟩ | ⟨doc, x, -, hremove, -⟩⟩
      · apply hs
      · apply hs.of_openRows (congrArg Sql.Db.tables hindex)
        intro path'
        rw [hdocs]
        by_cases hpath : path' = path
        · rw [hpath, openRows_remove_self, openRows_of_get_none hget]
        · apply openRows_remove_of_ne hpath
      · rw [SymbolIndex.removeDocument_ok hreliable.nextFault] at hremove
        obtain ⟨-, hindex⟩ := Prod.mk.inj hremove
        apply hs.remove hdocs
        rw [← hindex, Sql.Db.after_tables]
  | buildIndex =>
      obtain ⟨hdocs, ⟨docs, -, hperm, -, htables⟩ | ⟨hpoisoned, -⟩ | ⟨e, -, hfault, -⟩⟩ :=
        calls_buildIndex h
      · intro path
        rw [LspStore.InStepAt, htables, hdocs]
        apply LspStore.rowsAt_rowsOf_values hperm
      · rw [hbuild rfl] at hpoisoned
        cases hpoisoned
      · apply absurd hreliable hfault

/-! ### Histories -/

/-- A call and what it returned. -/
abbrev LspEvent : Type :=
  LspCall × Outcome String LspReply

/-- One call of a history. -/
def CallStep (treeSitter : TreeSitter) (s : LspStore) (e : LspEvent) (s' : LspStore) : Prop :=
  Calls treeSitter s e.1 e.2 s'

theorem CallStep.cons {call : LspCall} {history : List (LspEvent × LspStore)}
    (h : Calls treeSitter s call r s') (hrest : Trace (CallStep treeSitter) s' history) :
  Trace (CallStep treeSitter) s (((call, r), s') :: history)
  := Trace.cons h hrest

/-- The index has the rows of all open documents; rebuilding it changed no row and returned the
numbers of documents and rows; and a call about a path left the rows of all others. -/
structure Maintained (s : LspStore) (e : LspEvent) (s' : LspStore) : Prop where
  rows : s'.index.tables.Perm s'.allOpenRows
  rebuild : e.1 = .buildIndex → s'.index.tables.Perm s.index.tables
    ∧ e.2 = .ok (.indexed s.docs.documents.values.length s.index.tables.length)
  others : ∀ path, e.1.path? = some path →
    ∀ path', path' ≠ path → rowsAt path' s'.index.tables = rowsAt path' s.index.tables

/-- The index is not rebuilt while the mutex of the documents is poisoned. -/
def SoundRebuild (s : LspStore) (e : LspEvent) : Prop :=
  e.1 = .buildIndex → s.docs.poisoned = false

theorem maintained_iff_soundRebuild {e : LspEvent} (h : CallStep treeSitter s e s')
    (hs : s.InStep) (hreliable : s.index.Reliable) :
  Maintained s e s' ↔ SoundRebuild s e
  := by
  obtain ⟨call, r⟩ := e
  constructor
  · intro hmaintained hcall
    obtain rfl := hcall
    obtain ⟨-, hr⟩ := hmaintained.rebuild rfl
    obtain ⟨-, ⟨docs, hpoisoned, -⟩ | ⟨-, herror, -⟩ | ⟨e, herror, -⟩⟩ := calls_buildIndex h
    · apply hpoisoned
    · rw [herror] at hr
      cases hr
    · rw [herror] at hr
      cases hr
  · intro hsound
    constructor
    · apply (inStep_of_calls h hs hreliable hsound).perm
    · intro hcall
      obtain rfl := hcall
      obtain ⟨-, ⟨docs, -, hperm, rfl, htables⟩ | ⟨hpoisoned, -⟩ | ⟨e, -, hfault, -⟩⟩ :=
        calls_buildIndex h
      · have hrows : s'.index.tables.Perm s.index.tables := by
          rw [htables]
          apply (hperm.flatMap_right _).trans hs.perm.symm
        use hrows
        rw [hperm.length_eq, ← hrows.length_eq, htables]
      · rw [hsound rfl] at hpoisoned
        cases hpoisoned
      · apply absurd hreliable hfault
    · intro path hpath path' hne
      apply rowsAt_of_calls_of_ne h hpath hne

/-- From an empty table and without database errors, a history maintains the index throughout
exactly if it never rebuilds it while the mutex of the documents is poisoned. -/
theorem maintained_iff (treeSitter : TreeSitter) {index : LspDb} (hempty : index.tables = [])
    (hreliable : index.Reliable) {history : List (LspEvent × LspStore)}
    (h : Trace (CallStep treeSitter) (LspStore.new index) history) :
  Trace.Throughout Maintained (LspStore.new index) history
    ↔ Trace.Throughout (fun s e _ => SoundRebuild s e) (LspStore.new index) history
  := by
  let I (s : LspStore) : Prop := s.InStep ∧ s.index.Reliable
  have hiff : ∀ s e s', I s → CallStep treeSitter s e s' → (Maintained s e s' ↔ SoundRebuild s e) :=
    fun s e s' hs hstep => maintained_iff_soundRebuild hstep hs.1 hs.2
  have hinv : ∀ s e s', I s → CallStep treeSitter s e s' → Maintained s e s' → I s' := by
    intro s e s' hs hstep hmaintained
    constructor
    · apply inStep_of_calls hstep hs.1 hs.2
      apply (hiff s e s' hs hstep).mp hmaintained
    · apply reliable_of_calls hstep hs.2
  apply Trace.throughout_iff hiff hinv h
  exact ⟨LspStore.inStep_new hempty, hreliable⟩

end Calls

/-- A document is opened and the index rebuilt. -/
theorem maintained_open_rebuild :
  ∃ (r : Outcome String LspReply) (s s' : LspStore),
    Trace (CallStep sampleTreeSitter) (LspStore.new ⟨[], []⟩)
      [((.openDocument "main.rs" mainSource 1, .ok (.symbols 1)), s), ((.buildIndex, r), s')]
    ∧ Trace.Throughout Maintained (LspStore.new ⟨[], []⟩)
      [((.openDocument "main.rs" mainSource 1, .ok (.symbols 1)), s), ((.buildIndex, r), s')]
  := by
  obtain ⟨extractor, -, hopen⟩ := calls_open_mainSource
  obtain ⟨r, s', hbuild⟩ := calls_total sampleTreeSitter (indexedMain extractor) .buildIndex
  use r, indexedMain extractor, s'
  let history : List (LspEvent × LspStore) :=
    [((.openDocument "main.rs" mainSource 1, .ok (.symbols 1)), indexedMain extractor),
      ((.buildIndex, r), s')]
  have htrace : Trace (CallStep sampleTreeSitter) (LspStore.new ⟨[], []⟩) history := by
    apply CallStep.cons hopen
    apply CallStep.cons hbuild
    apply Trace.nil
  use htrace
  have hreliable : (⟨[], []⟩ : LspDb).Reliable := rfl
  apply (maintained_iff sampleTreeSitter rfl hreliable htrace).mpr
  constructor
  · rintro ⟨⟩
  · exact ⟨fun _ => rfl, trivial⟩

/-- A document whose extraction panics poisons the mutex; rebuilding the index then empties it,
and `main.rs`, still open, has no rows. -/
theorem not_maintained_panicked_rebuild :
  ∃ s s' s'' : LspStore,
    Trace (CallStep sampleTreeSitter) (LspStore.new ⟨[], []⟩)
      [((.openDocument "main.rs" mainSource 1, .ok (.symbols 1)), s),
        ((.openDocument "b.js" longImport 1, .error .panicked), s'),
        ((.buildIndex, .error DocumentStore.lockPoisoned), s'')]
    ∧ s''.docs.documents.get "main.rs" = some mainDocument
    ∧ s''.index.tables = []
    ∧ ¬ s''.index.tables.Perm s''.allOpenRows
  := by
  obtain ⟨extractor, hcoherent, hopen⟩ := calls_open_mainSource
  obtain ⟨extractor', hpanic⟩ := calls_open_longImport hcoherent
  let poisoned : LspStore :=
    { indexedMain extractor with
      docs := { openedMain extractor with extractor := extractor', poisoned := true } }
  obtain ⟨r, s'', hbuild⟩ := calls_total sampleTreeSitter poisoned .buildIndex
  obtain ⟨hdocs, ⟨docs, hsound, -⟩ | ⟨-, rfl, htables⟩ | ⟨e, -, hfault, -⟩⟩ :=
    calls_buildIndex hbuild
  · cases hsound
  · use indexedMain extractor, poisoned, s''
    constructor
    · apply CallStep.cons hopen
      apply CallStep.cons hpanic
      apply CallStep.cons hbuild
      apply Trace.nil
    have hget : s''.docs.documents.get "main.rs" = some mainDocument := by
      rw [hdocs]
      apply get_openedMain extractor
    use hget, htables
    intro hperm
    have hrows := LspStore.rowsAt_allOpenRows s'' "main.rs"
    rw [htables] at hperm
    rw [← hperm.nil_eq, rowsAt_nil, openRows_of_get hget] at hrows
    cases hrows
  · apply absurd rfl hfault

end OrchestraRag
