import OrchestraRag.Library.Trace
import OrchestraRag.Lsp.Methods

/-!
# Lifetimes

A restart forgets the documents and keeps the table of the index.  A row is a ghost when its
document is not open; queries find the rows of the table, so they find a ghost exactly when
there may be one (`confined_iff`).  A run over several lifetimes never has a ghost exactly if
it restarts only on an empty table, and no `DELETE` of a close that reaches the index fails
on a document with rows (`confined_throughout_iff`).
-/

namespace OrchestraRag

/-! ### Ghosts -/

namespace LspStore

/-- The document at a path is open. -/
def IsOpen (s : LspStore) (path : String) : Prop :=
  s.docs.documents.get path ≠ none

/-- Every row belongs to an open document. -/
def NoGhosts (s : LspStore) : Prop :=
  ∀ row ∈ s.index.tables, s.IsOpen row.documentPath

theorem noGhosts_iff {s : LspStore} :
  s.NoGhosts ↔ ∀ path, ¬ s.IsOpen path → rowsAt path s.index.tables = []
  := by
  constructor
  · intro hs path hpath
    apply rowsAt_eq_nil
    rintro row hrow rfl
    apply hpath (hs row hrow)
  · intro hs row hrow
    by_contra hghost
    have hmem : row ∈ rowsAt row.documentPath s.index.tables := mem_rowsAt.mpr ⟨hrow, rfl⟩
    rw [hs row.documentPath hghost] at hmem
    cases hmem

/-- Every row, and every location a query finds, belongs to an open document. -/
structure Confined (s : LspStore) : Prop where
  rows : s.NoGhosts
  definition : ∀ scan path line col location db,
    SymbolIndex.gotoDefinition scan path line col s.index = (.ok (some location), db) →
    s.IsOpen location.path
  references : ∀ scan path line col locations db,
    SymbolIndex.findReferences scan path line col s.index = (.ok locations, db) →
    ∀ location ∈ locations, s.IsOpen location.path
  symbols : ∀ scan query locations db,
    SymbolIndex.searchSymbols scan query s.index = (.ok locations, db) →
    ∀ location ∈ locations, s.IsOpen location.path

theorem confined_iff {s : LspStore} :
  s.Confined ↔ s.NoGhosts
  := by
  use Confined.rows
  intro hs
  constructor
  · apply hs
  · intro scan path line col location db hquery
    obtain ⟨row, hrow, rfl⟩ := SymbolIndex.gotoDefinition_mem hquery
    apply hs row hrow
  · intro scan path line col locations db hquery location hlocation
    obtain ⟨row, hrow, rfl⟩ := SymbolIndex.findReferences_mem hquery location hlocation
    apply hs row hrow
  · intro scan query locations db hquery location hlocation
    obtain ⟨row, hrow, rfl⟩ := SymbolIndex.searchSymbols_mem hquery location hlocation
    apply hs row hrow

end LspStore

/-! ### One call -/

section Calls

variable {treeSitter : TreeSitter} {s s' : LspStore} {r : Outcome String LspReply}

/-- After a call about a path, only rows at that path may be ghosts. -/
theorem noGhosts_of_calls_iff {call : LspCall} (h : Calls treeSitter s call r s')
    (hs : s.NoGhosts) {path : String} (hpath : call.path? = some path) :
  s'.NoGhosts ↔ (¬ s'.IsOpen path → rowsAt path s'.index.tables = [])
  := by
  rw [LspStore.noGhosts_iff]
  constructor
  · intro hs'
    apply hs' path
  · intro hrows path' hclosed
    by_cases heq : path' = path
    · rw [heq] at hclosed ⊢
      apply hrows hclosed
    · rw [rowsAt_of_calls_of_ne h hpath heq]
      apply LspStore.noGhosts_iff.mp hs
      rw [LspStore.IsOpen, ← get_of_calls_of_ne h hpath heq]
      apply hclosed

/-- Opening a document leaves no ghosts, failed or not. -/
theorem noGhosts_openDocument {path content : String} {version : Int64}
    (h : Calls treeSitter s (.openDocument path content version) r s') (hs : s.NoGhosts) :
  s'.NoGhosts
  := by
  apply (noGhosts_of_calls_iff h hs rfl).mpr
  intro hclosed
  rcases calls_openDocument h with ⟨e, -, hdocs, hindex, -⟩ | ⟨doc, x, rfl, -, -, hdocs, -⟩
  · rw [hindex]
    apply LspStore.noGhosts_iff.mp hs
    rw [LspStore.IsOpen, ← hdocs]
    apply hclosed
  · rw [LspStore.IsOpen, hdocs, Documents.get_insert_self] at hclosed
    apply absurd (Option.some_ne_none doc) hclosed

/-- Updating a document leaves no ghosts, failed or not. -/
theorem noGhosts_updateDocument {path content : String} {version : Int64}
    (h : Calls treeSitter s (.updateDocument path content version) r s') (hs : s.NoGhosts) :
  s'.NoGhosts
  := by
  apply (noGhosts_of_calls_iff h hs rfl).mpr
  intro hclosed
  rcases calls_updateDocument h with ⟨e, -, rfl, -⟩ | ⟨e, old, doc, -, -, rfl, -, -, -, hdocs, -⟩
    | ⟨old, doc, x, -, rfl, -, -, hdocs, -⟩
  · apply LspStore.noGhosts_iff.mp hs _ hclosed
  · rw [LspStore.IsOpen, hdocs, Documents.get_insert_self] at hclosed
    apply absurd (Option.some_ne_none doc) hclosed
  · rw [LspStore.IsOpen, hdocs, Documents.get_insert_self] at hclosed
    apply absurd (Option.some_ne_none doc) hclosed

/-- Rebuilding the index leaves no ghosts, failed or not. -/
theorem noGhosts_buildIndex (h : Calls treeSitter s .buildIndex r s') (hs : s.NoGhosts) :
  s'.NoGhosts
  := by
  have hopen : ∀ docs, docs.Perm s.docs.documents.values →
      ∀ row ∈ rowsOf docs, s.IsOpen row.documentPath := by
    intro docs hperm row hrow
    obtain ⟨doc, hdoc, hrow⟩ := mem_rowsOf.mp hrow
    have hget := Documents.mem_values.mp (hperm.mem_iff.mp hdoc)
    rw [documentPath_of_mem_flatten hrow, LspStore.IsOpen, hget]
    apply Option.some_ne_none
  obtain ⟨hdocs, hcases⟩ := calls_buildIndex h
  intro row hrow
  rw [LspStore.IsOpen, hdocs]
  rcases hcases with ⟨docs, -, hperm, -, htables⟩ | ⟨-, -, htables⟩
    | ⟨e, -, -, htables | ⟨docs, hperm, hfirst⟩⟩
  · rw [htables] at hrow
    apply hopen docs hperm row hrow
  · rw [htables] at hrow
    cases hrow
  · rw [htables] at hrow
    apply hs row hrow
  · apply hopen docs hperm row (hfirst.subset hrow)

/-- The close call finds the document open and fails to delete its rows. -/
def LspStore.FailsToDelete (s : LspStore) (path : String) : Prop :=
  s.docs.poisoned = false ∧ s.IsOpen path ∧ s.index.nextFault ≠ none

/-- Closing a document leaves no ghosts exactly if its rows are deleted or there are none. -/
theorem noGhosts_closeDocument_iff {path : String}
    (h : Calls treeSitter s (.closeDocument path) r s') (hs : s.NoGhosts) :
  s'.NoGhosts ↔ (s.FailsToDelete path → rowsAt path s.index.tables = [])
  := by
  rw [noGhosts_of_calls_iff h hs rfl]
  rcases calls_closeDocument h with
    ⟨-, rfl, hpoisoned⟩ | ⟨hpoisoned, -, hdocs, ⟨hget, hindex, -⟩ | ⟨doc, x, hget, hremove, -⟩⟩
  · constructor
    · rintro - ⟨hsound, -⟩
      rw [hpoisoned] at hsound
      cases hsound
    · intro _ hclosed
      apply LspStore.noGhosts_iff.mp hs path hclosed
  · constructor
    · rintro - ⟨-, hopen, -⟩
      apply absurd hget hopen
    · intro _ _
      rw [hindex]
      apply LspStore.noGhosts_iff.mp hs
      apply not_not.mpr hget
  · have hopen : s.IsOpen path := by
      rw [LspStore.IsOpen, hget]
      apply Option.some_ne_none
    have hclosed : ¬ s'.IsOpen path := by
      rw [LspStore.IsOpen, hdocs, Documents.get_remove_self]
      apply not_not.mpr rfl
    cases hfault : s.index.nextFault with
    | none =>
        rw [SymbolIndex.removeDocument_ok hfault] at hremove
        have hindex := (Prod.mk.inj hremove).2
        constructor
        · rintro - ⟨-, -, hfails⟩
          apply absurd hfault hfails
        · intro _ _
          rw [← hindex]
          apply rowsAt_deleteRows_self
    | some e =>
        rw [SymbolIndex.removeDocument_error hfault] at hremove
        have hindex := (Prod.mk.inj hremove).2
        have hfails : s.FailsToDelete path := by
          use hpoisoned, hopen
          rw [hfault]
          apply Option.some_ne_none
        rw [← hindex]
        constructor
        · intro hrows _
          apply hrows hclosed
        · intro hrows _
          apply hrows hfails

end Calls

/-! ### Runs -/

/-- A call that returned, or a restart of the process. -/
inductive Occurrence where
  | called (call : LspCall) (result : Outcome String LspReply)
  | restarted

/-- One occurrence: a restart makes a new store on the same table. -/
def Occurs (treeSitter : TreeSitter) (s : LspStore) : Occurrence → LspStore → Prop
  | .called call r, s' => Calls treeSitter s call r s'
  | .restarted, s' => s' = LspStore.new s.index

/-- A restart finds no rows, and a close that fails to delete the rows of a document finds
none. -/
def LeavesNoGhosts (s : LspStore) : Occurrence → Prop
  | .called (.closeDocument path) _ => s.FailsToDelete path → rowsAt path s.index.tables = []
  | .called _ _ => True
  | .restarted => s.index.tables = []

theorem confined_iff_leavesNoGhosts {treeSitter : TreeSitter} {s s' : LspStore} {e : Occurrence}
    (h : Occurs treeSitter s e s') (hs : s.Confined) :
  s'.Confined ↔ LeavesNoGhosts s e
  := by
  rw [LspStore.confined_iff] at hs ⊢
  cases e with
  | called call r =>
      cases call with
      | openDocument path content version => exact iff_of_true (noGhosts_openDocument h hs) trivial
      | updateDocument path content version =>
          exact iff_of_true (noGhosts_updateDocument h hs) trivial
      | closeDocument path => apply noGhosts_closeDocument_iff h hs
      | buildIndex => exact iff_of_true (noGhosts_buildIndex h hs) trivial
  | restarted =>
      obtain rfl := h
      constructor
      · intro hs'
        apply List.eq_nil_iff_forall_not_mem.mpr
        intro row hrow
        apply hs' row hrow
        apply Documents.get_empty
      · intro hempty row hrow
        rw [LspStore.new, hempty] at hrow
        cases hrow

/-- From an empty table, a run over any number of lifetimes is confined to the open documents
throughout exactly if each occurrence leaves no ghosts. -/
theorem confined_throughout_iff (treeSitter : TreeSitter) {index : LspDb}
    (hempty : index.tables = []) {run : List (Occurrence × LspStore)}
    (h : Trace (Occurs treeSitter) (LspStore.new index) run) :
  Trace.Throughout (fun _ _ s' => s'.Confined) (LspStore.new index) run
    ↔ Trace.Throughout (fun s e _ => LeavesNoGhosts s e) (LspStore.new index) run
  := by
  have hiff : ∀ s e s', s.Confined → Occurs treeSitter s e s' →
      (s'.Confined ↔ LeavesNoGhosts s e) :=
    fun s e s' hs hstep => confined_iff_leavesNoGhosts hstep hs
  have hinv : ∀ s e s', s.Confined → Occurs treeSitter s e s' → s'.Confined → s'.Confined :=
    fun _ _ _ _ _ hs' => hs'
  apply Trace.throughout_iff hiff hinv h
  apply LspStore.confined_iff.mpr
  intro row hrow
  rw [LspStore.new, hempty] at hrow
  cases hrow

theorem Occurs.call {treeSitter : TreeSitter} {s s' : LspStore} {call : LspCall}
    {r : Outcome String LspReply} {run : List (Occurrence × LspStore)}
    (h : Calls treeSitter s call r s') (hrest : Trace (Occurs treeSitter) s' run) :
  Trace (Occurs treeSitter) s ((.called call r, s') :: run)
  := Trace.cons h hrest

theorem Occurs.restart {treeSitter : TreeSitter} {s : LspStore}
    {run : List (Occurrence × LspStore)}
    (hrest : Trace (Occurs treeSitter) (LspStore.new s.index) run) :
  Trace (Occurs treeSitter) s ((.restarted, LspStore.new s.index) :: run)
  := Trace.cons rfl hrest

/-- A document is opened and closed, and the process restarted. -/
theorem confined_close_restart :
  ∃ run, run.map Prod.fst = [.called (.openDocument "main.rs" mainSource 1) (.ok (.symbols 1)),
      .called (.closeDocument "main.rs") (.ok (.closed true)), .restarted]
    ∧ Trace (Occurs sampleTreeSitter) (LspStore.new ⟨[], []⟩) run
    ∧ Trace.Throughout (fun _ _ s' => s'.Confined) (LspStore.new ⟨[], []⟩) run
  := by
  obtain ⟨extractor, -, hopen⟩ := calls_open_mainSource
  have hclose := calls_close_indexedMain extractor
  have htrace := Occurs.call hopen (Occurs.call hclose (Occurs.restart Trace.nil))
  refine ⟨_, rfl, htrace, ?_⟩
  apply (confined_throughout_iff sampleTreeSitter rfl htrace).mpr
  use trivial
  constructor
  · rintro ⟨-, -, hfails⟩
    apply absurd rfl hfails
  · exact ⟨rfl, trivial⟩

/-- A document is opened and the process restarted: its row is a ghost. -/
theorem not_confined_open_restart :
  ∃ s : LspStore,
    Trace (Occurs sampleTreeSitter) (LspStore.new ⟨[], []⟩)
      [(.called (.openDocument "main.rs" mainSource 1) (.ok (.symbols 1)), s),
        (.restarted, LspStore.new s.index)]
    ∧ ¬ (LspStore.new s.index).IsOpen "main.rs"
    ∧ rowsAt "main.rs" (LspStore.new s.index).index.tables ≠ []
  := by
  obtain ⟨extractor, -, hopen⟩ := calls_open_mainSource
  use indexedMain extractor
  constructor
  · apply Occurs.call hopen
    apply Occurs.restart
    apply Trace.nil
  constructor
  · apply not_not.mpr rfl
  · rw [LspStore.new, indexedMain, rowsAt_flatten_self]
    apply List.cons_ne_nil

end OrchestraRag
