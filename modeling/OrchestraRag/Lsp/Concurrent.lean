import OrchestraRag.Lsp.Methods

/-!
# Concurrent calls

Calls that run at once interleave at the atomic steps of `LspOp`.  A call passes through the
phases of `Phase`; in some of them it is about to put the rows of a path in step with its
document (`Phase.Puts`).  As long as every write carries the symbols cached at that moment,
a path out of step always has such a call (`Settled`), so that in the end all paths are in
step (`inStep_of_run`).

A snapshot written after a newer one, or after a close, breaks this
(`not_inStep_open_close`).
-/

namespace OrchestraRag

/-! ### Phases -/

/-- Where a call is. -/
inductive Phase where
  | opening (path content : String) (version : Int64)
  | updating (path content : String) (version : Int64)
  | syncing (path : String) (count : ℕ)
  | writing (path : String) (symbols : List CodeSymbol) (count : ℕ)
  | closing (path : String)
  | removing (path : String)
  | clearing
  | listing
  | rebuilding (documents total : ℕ) (docs : List Document)
  | done (outcome : Outcome String LspReply)

namespace Phase

/-- The call from this phase on. -/
def thread : Phase → LspThread
  | .opening path content version => .opening path content version
  | .updating path content version => .updating path content version
  | .syncing path count => .syncing path count
  | .writing path symbols count => .writing path symbols count
  | .closing path => .closing path
  | .removing path => .removing path
  | .clearing => .clearing
  | .listing => .listing
  | .rebuilding documents total docs => .rebuilding documents total docs
  | .done outcome => .ret outcome

/-- The phase in which a call starts. -/
def start : LspCall → Phase
  | .openDocument path content version => .opening path content version
  | .closeDocument path => .closing path
  | .updateDocument path content version => .updating path content version
  | .buildIndex => .clearing

end Phase

/-- A call is what its first phase does. -/
theorem program_eq_start (call : LspCall) :
  call.program = (Phase.start call).thread
  := by
  cases call with
  | openDocument path content version => apply program_openDocument
  | updateDocument path content version => apply program_updateDocument
  | closeDocument path => apply program_closeDocument
  | buildIndex => apply program_buildIndex

/-! ### One step -/

namespace LspStore

/-- Two states agree at a path: on its rows, on the symbols cached for it, and on whether it
is open. -/
structure SameAt (s s' : LspStore) (path : String) : Prop where
  rows : rowsAt path s'.index.tables = rowsAt path s.index.tables
  openRows : openRows s'.docs.documents path = openRows s.docs.documents path
  isOpen : (s'.docs.documents.get path).isSome = (s.docs.documents.get path).isSome

theorem SameAt.inStepAt {s s' : LspStore} {path : String} (h : SameAt s s' path)
    (hs : s.InStepAt path) :
  s'.InStepAt path
  := by
  rw [InStepAt, h.rows, h.openRows]
  apply hs

theorem SameAt.refl (s : LspStore) (path : String) :
  SameAt s s path
  := ⟨rfl, rfl, rfl⟩

/-- States with the same index agree where the documents do. -/
theorem SameAt.of_get {s s' : LspStore} {path : String} (hindex : s'.index = s.index)
    (hget : s'.docs.documents.get path = s.docs.documents.get path) :
  SameAt s s' path
  := by
  constructor
  · rw [hindex]
  · apply openRows_congr hget
  · rw [hget]

theorem SameAt.of_eq {s s' : LspStore} (path : String) (hindex : s'.index = s.index)
    (hdocs : s'.docs.documents = s.docs.documents) :
  SameAt s s' path
  := by
  apply SameAt.of_get hindex
  rw [hdocs]

/-- Storing a document with the symbols of the one that was open leaves every path as it was. -/
theorem SameAt.of_symbols {s s' : LspStore} {old doc : Document} (hindex : s'.index = s.index)
    (hdocs : s'.docs.documents = s.docs.documents.insert doc)
    (hget : s.docs.documents.get doc.path = some old) (hsymbols : doc.symbols = old.symbols)
    (path : String) :
  SameAt s s' path
  := by
  by_cases hpath : path = doc.path
  · constructor
    · rw [hindex]
    · rw [hpath, hdocs, openRows_insert_self, openRows_of_get hget, hsymbols]
    · rw [hpath, hdocs, Documents.get_insert_self, hget]
      apply rfl
  · apply SameAt.of_get hindex
    rw [hdocs, Documents.get_insert_of_ne hpath]

/-- After a write to the index at one path, the states agree at every other one. -/
theorem SameAt.of_rows {s s' : LspStore} {path : String} (hdocs : s'.docs = s.docs)
    (hrows : rowsAt path s'.index.tables = rowsAt path s.index.tables) :
  SameAt s s' path
  := by
  constructor
  · apply hrows
  · rw [hdocs]
  · rw [hdocs]

end LspStore

/-- The step is taken on a current snapshot: symbols are written for a path when they are the
ones cached for it, rows are removed when none are cached, and documents are read when the
mutex is not poisoned. -/
def LspOp.Current (s : LspStore) : LspOp → Prop
  | .indexReplace path symbols => flatten path symbols = openRows s.docs.documents path
  | .indexRemove path => openRows s.docs.documents path = []
  | .docsGet _ => s.docs.poisoned = false
  | .docsAll => s.docs.poisoned = false
  | _ => True

namespace Phase

/-- The call is about to write the rows of a path. -/
def Syncs (path : String) : Phase → Prop
  | .syncing path' _ => path' = path
  | .writing path' _ _ => path' = path
  | .listing => True
  | .rebuilding _ _ docs => ∃ doc ∈ docs, doc.path = path
  | _ => False

/-- The call is about to remove the rows of a path. -/
def Removes (path : String) : Phase → Prop
  | .removing path' => path' = path
  | _ => False

/-- The call is about to put the rows of a path in step with its document. -/
def Puts (docs : Documents) (path : String) (phase : Phase) : Prop :=
  if (docs.get path).isSome then phase.Syncs path else phase.Removes path

theorem not_puts {docs : Documents} {path : String} {phase : Phase} (hsyncs : ¬ phase.Syncs path)
    (hremoves : ¬ phase.Removes path) :
  ¬ phase.Puts docs path
  := by
  rw [Puts]
  split
  · apply hsyncs
  · apply hremoves

theorem puts_congr {s s' : LspStore} {path : String} (h : s.SameAt s' path) (phase : Phase) :
  phase.Puts s'.docs.documents path ↔ phase.Puts s.docs.documents path
  := by
  rw [Puts, Puts, h.isOpen]

/-- What a step of a call leaves at a path: the path in step, or the call about to put it in
step, or a path at which nothing changed and for which the call was not about to do so. -/
def Leaves (s s' : LspStore) (phase phase' : Phase) (path : String) : Prop :=
  s'.InStepAt path ∨ phase'.Puts s'.docs.documents path
    ∨ (s.SameAt s' path ∧ ¬ phase.Puts s.docs.documents path)

variable {treeSitter : TreeSitter} {s s' : LspStore}

/-- Storing a document leaves its own path to the call that stored it. -/
theorem leaves_insert {phase : Phase} {doc : Document} {count : ℕ} (hindex : s'.index = s.index)
    (hdocs : s'.docs.documents = s.docs.documents.insert doc)
    (hsyncs : ∀ path, ¬ phase.Syncs path) (hremoves : ∀ path, ¬ phase.Removes path)
    (path : String) :
  Leaves s s' phase (.syncing doc.path count) path
  := by
  by_cases hpath : path = doc.path
  · have hputs : Puts s'.docs.documents path (.syncing doc.path count) := by
      rw [Puts, hdocs, hpath, Documents.get_insert_self]
      apply rfl
    exact Or.inr (Or.inl hputs)
  · have hsame : s.SameAt s' path := by
      apply LspStore.SameAt.of_get hindex
      rw [hdocs, Documents.get_insert_of_ne hpath]
    exact Or.inr (Or.inr ⟨hsame, not_puts (hsyncs path) (hremoves path)⟩)

/-- A step that changes nothing at any path, by a call that was not about to write. -/
theorem leaves_same {phase phase' : Phase} (hsame : ∀ path, s.SameAt s' path)
    (hsyncs : ∀ path, ¬ phase.Syncs path) (hremoves : ∀ path, ¬ phase.Removes path)
    (path : String) :
  Leaves s s' phase phase' path
  := Or.inr (Or.inr ⟨hsame path, not_puts (hsyncs path) (hremoves path)⟩)

/-- Writing the current symbols of a path puts it in step and leaves the other paths. -/
theorem leaves_replace {phase phase' : Phase} {path : String} {symbols : List CodeSymbol}
    (hcurrent : flatten path symbols = openRows s.docs.documents path)
    (hdocs : s'.docs = s.docs)
    (htables : s'.index.tables = deleteRows path s.index.tables ++ flatten path symbols)
    (hputs : ∀ path', path' ≠ path → phase.Puts s.docs.documents path' →
      phase'.Puts s'.docs.documents path') (path' : String) :
  Leaves s s' phase phase' path'
  := by
  by_cases hpath : path' = path
  · apply Or.inl
    rw [LspStore.InStepAt, hpath, htables, hdocs, rowsAt_append, rowsAt_deleteRows_self,
      rowsAt_flatten_self, List.nil_append, hcurrent]
  · by_cases hphase : phase.Puts s.docs.documents path'
    · apply Or.inr (Or.inl (hputs path' hpath hphase))
    · have hsame : s.SameAt s' path' := by
        apply LspStore.SameAt.of_rows hdocs
        rw [htables, rowsAt_append, rowsAt_deleteRows_of_ne hpath, rowsAt_flatten_of_ne hpath,
          List.append_nil]
      exact Or.inr (Or.inr ⟨hsame, hphase⟩)

/-- A call goes on in another phase, which is about to do whatever is left to do. -/
def Continues (s s' : LspStore) (phase : Phase) (t : LspThread) : Prop :=
  ∃ phase', t = phase'.thread ∧ s'.index.Reliable ∧ ∀ path, Leaves s s' phase phase' path

section Step

variable {op : LspOp} {k : LspAns op → LspThread} {x : LspAns op}

theorem step_opening {path content : String} {version : Int64}
    (hthread : (Phase.opening path content version).thread = .step op k)
    (hstep : LspOp.Step treeSitter op s x s')
    (hreliable : s.index.Reliable) :
  Continues s s' (.opening path content version) (k x)
  := by
  cases hthread
  obtain ⟨hopen, hindex⟩ := hstep
  have hreliable' : s'.index.Reliable := by
    rw [hindex]
    apply hreliable
  rcases DocumentStore.open_cases hopen with
    ⟨doc, rfl, -, -, rfl, hdocs, -, -⟩ | ⟨e, rfl, hdocs, -⟩
  · use .syncing doc.path doc.symbolCount, rfl, hreliable'
    apply leaves_insert hindex hdocs (fun _ => id) (fun _ => id)
  · use .done (.error e), rfl, hreliable'
    apply leaves_same _ (fun _ => id) (fun _ => id)
    intro path
    apply LspStore.SameAt.of_eq path hindex hdocs

theorem step_updating {path content : String} {version : Int64}
    (hthread : (Phase.updating path content version).thread = .step op k)
    (hstep : LspOp.Step treeSitter op s x s')
    (hreliable : s.index.Reliable) :
  Continues s s' (.updating path content version) (k x)
  := by
  cases hthread
  obtain ⟨hupdate, hindex⟩ := hstep
  have hreliable' : s'.index.Reliable := by
    rw [hindex]
    apply hreliable
  rcases DocumentStore.update_cases hupdate with
    ⟨old, doc, -, rfl, -, -, rfl, hdocs, -, -⟩ | ⟨e, rfl, hdocs, -⟩
      | ⟨e, old, doc, rfl, hget, rfl, -, -, hsymbols, hdocs, -⟩
  · use .syncing doc.path doc.symbolCount, rfl, hreliable'
    apply leaves_insert hindex hdocs (fun _ => id) (fun _ => id)
  · use .done (.error e), rfl, hreliable'
    apply leaves_same _ (fun _ => id) (fun _ => id)
    intro path
    apply LspStore.SameAt.of_eq path hindex (congrArg DocumentStore.documents hdocs)
  · use .done (.error e), rfl, hreliable'
    apply leaves_same _ (fun _ => id) (fun _ => id)
    apply LspStore.SameAt.of_symbols hindex hdocs hget hsymbols

theorem step_syncing {path : String} {count : ℕ}
    (hthread : (Phase.syncing path count).thread = .step op k)
    (hstep : LspOp.Step treeSitter op s x s') (hcurrent : op.Current s)
    (hreliable : s.index.Reliable) :
  Continues s s' (.syncing path count) (k x)
  := by
  cases hthread
  obtain ⟨rfl, rfl⟩ := hstep
  rw [DocumentStore.get, hcurrent]
  cases hget : s'.docs.documents.get path with
  | none =>
      use .done (.ok (.symbols count)), rfl, hreliable
      intro path'
      have hputs : ¬ Puts s'.docs.documents path' (.syncing path count) := by
        rw [Puts]
        split
        · rintro rfl
          simp_all
        · apply id
      exact Or.inr (Or.inr ⟨LspStore.SameAt.refl s' path', hputs⟩)
  | some doc =>
      obtain rfl := Documents.path_of_get hget
      use .writing doc.path doc.symbols count, rfl, hreliable
      intro path'
      by_cases hputs : Puts s'.docs.documents path' (.syncing doc.path count)
      · apply Or.inr (Or.inl hputs)
      · exact Or.inr (Or.inr ⟨LspStore.SameAt.refl s' path', hputs⟩)

theorem step_writing {path : String} {symbols : List CodeSymbol} {count : ℕ}
    (hthread : (Phase.writing path symbols count).thread = .step op k)
    (hstep : LspOp.Step treeSitter op s x s') (hcurrent : op.Current s)
    (hreliable : s.index.Reliable) :
  Continues s s' (.writing path symbols count) (k x)
  := by
  cases hthread
  obtain ⟨hreplace, hdocs⟩ := hstep
  obtain ⟨db, hdb, hreliable', htables⟩ :=
    SymbolIndex.replaceDocumentSymbols_reliable path symbols hreliable
  rw [hdb] at hreplace
  obtain ⟨rfl, rfl⟩ := Prod.mk.inj hreplace
  use .done (.ok (.symbols count)), rfl, hreliable'
  apply leaves_replace hcurrent hdocs htables
  intro path' hpath hputs
  rw [Puts] at hputs
  split at hputs
  · apply absurd hputs.symm hpath
  · apply absurd hputs id

theorem step_closing {path : String}
    (hthread : (Phase.closing path).thread = .step op k)
    (hstep : LspOp.Step treeSitter op s x s')
    (hreliable : s.index.Reliable) :
  Continues s s' (.closing path) (k x)
  := by
  cases hthread
  obtain ⟨hclose, hindex⟩ := hstep
  have hreliable' : s'.index.Reliable := by
    rw [hindex]
    apply hreliable
  rcases DocumentStore.close_cases hclose with ⟨rfl, hdocs, -, -⟩ | ⟨rfl, hdocs, -⟩
  · cases hget : s.docs.documents.get path with
    | some doc =>
        use .removing path, rfl, hreliable'
        intro path'
        by_cases hpath : path' = path
        · have hputs : Puts s'.docs.documents path' (.removing path) := by
            rw [Puts, hdocs, hpath, Documents.get_remove_self]
            apply rfl
          exact Or.inr (Or.inl hputs)
        · have hsame : s.SameAt s' path' := by
            apply LspStore.SameAt.of_get hindex
            rw [hdocs, Documents.get_remove_of_ne hpath]
          exact Or.inr (Or.inr ⟨hsame, not_puts id id⟩)
    | none =>
        use .done (.ok (.closed false)), rfl, hreliable'
        apply leaves_same _ (fun _ => id) (fun _ => id)
        intro path'
        apply LspStore.SameAt.of_get hindex
        by_cases hpath : path' = path
        · rw [hdocs, hpath, Documents.get_remove_self, hget]
        · rw [hdocs, Documents.get_remove_of_ne hpath]
  · use .done (.error DocumentStore.lockPoisoned), rfl, hreliable'
    apply leaves_same _ (fun _ => id) (fun _ => id)
    intro path'
    apply LspStore.SameAt.of_eq path' hindex (congrArg DocumentStore.documents hdocs)

theorem step_removing {path : String}
    (hthread : (Phase.removing path).thread = .step op k)
    (hstep : LspOp.Step treeSitter op s x s') (hcurrent : op.Current s)
    (hreliable : s.index.Reliable) :
  Continues s s' (.removing path) (k x)
  := by
  cases hthread
  obtain ⟨hremove, hdocs⟩ := hstep
  rw [SymbolIndex.removeDocument_ok hreliable.nextFault] at hremove
  obtain ⟨rfl, hindex⟩ := Prod.mk.inj hremove
  have hreliable' : s'.index.Reliable := by
    rw [← hindex]
    apply hreliable.after
  use .done (.ok (.closed true)), rfl, hreliable'
  intro path'
  by_cases hpath : path' = path
  · apply Or.inl
    rw [LspStore.InStepAt, hpath, hdocs, ← hindex, Sql.Db.after_tables,
      rowsAt_deleteRows_self]
    apply hcurrent.symm
  · have hsame : s.SameAt s' path' := by
      apply LspStore.SameAt.of_rows hdocs
      rw [← hindex, Sql.Db.after_tables, rowsAt_deleteRows_of_ne hpath]
    exact Or.inr (Or.inr ⟨hsame, not_puts id (Ne.symm hpath)⟩)

theorem step_clearing
    (hthread : Phase.clearing.thread = .step op k)
    (hstep : LspOp.Step treeSitter op s x s')
    (hreliable : s.index.Reliable) :
  Continues s s' .clearing (k x)
  := by
  cases hthread
  obtain ⟨hclear, hdocs⟩ := hstep
  rw [SymbolIndex.clear_ok hreliable.nextFault] at hclear
  obtain ⟨rfl, hindex⟩ := Prod.mk.inj hclear
  have hreliable' : s'.index.Reliable := by
    rw [← hindex]
    apply hreliable.after
  use .listing, rfl, hreliable'
  intro path'
  cases hget : s'.docs.documents.get path' with
  | none =>
      apply Or.inl
      rw [LspStore.InStepAt, openRows_of_get_none hget, ← hindex]
      apply rfl
  | some doc =>
      have hputs : Puts s'.docs.documents path' .listing := by
        rw [Puts, hget]
        apply trivial
      exact Or.inr (Or.inl hputs)

theorem step_listing
    (hthread : Phase.listing.thread = .step op k)
    (hstep : LspOp.Step treeSitter op s x s') (hcurrent : op.Current s)
    (hreliable : s.index.Reliable) :
  Continues s s' .listing (k x)
  := by
  cases hthread
  obtain ⟨hall, rfl⟩ := hstep
  obtain ⟨docs, rfl, hperm⟩ := DocumentStore.AllDocuments.ok hall hcurrent
  use .rebuilding docs.length 0 docs, rfl, hreliable
  intro path'
  cases hget : s'.docs.documents.get path' with
  | none =>
      have hputs : ¬ Puts s'.docs.documents path' .listing := by
        rw [Puts, hget]
        apply id
      exact Or.inr (Or.inr ⟨LspStore.SameAt.refl s' path', hputs⟩)
  | some doc =>
      have hputs : Puts s'.docs.documents path' (.rebuilding docs.length 0 docs) := by
        obtain rfl := Documents.path_of_get hget
        rw [Puts, hget]
        exact ⟨doc, hperm.mem_iff.mpr (Documents.mem_values.mpr hget), rfl⟩
      exact Or.inr (Or.inl hputs)

theorem step_rebuilding {documents total : ℕ} {docs : List Document}
    (hthread : (Phase.rebuilding documents total docs).thread = .step op k)
    (hstep : LspOp.Step treeSitter op s x s') (hcurrent : op.Current s)
    (hreliable : s.index.Reliable) :
  Continues s s' (.rebuilding documents total docs) (k x)
  := by
  cases docs with
  | nil => cases hthread
  | cons doc docs =>
      cases hthread
      obtain ⟨hreplace, hdocs⟩ := hstep
      obtain ⟨db, hdb, hreliable', htables⟩ :=
        SymbolIndex.replaceDocumentSymbols_reliable doc.path doc.symbols hreliable
      rw [hdb] at hreplace
      obtain ⟨rfl, rfl⟩ := Prod.mk.inj hreplace
      use .rebuilding documents (total + (flatten doc.path doc.symbols).length) docs, rfl,
        hreliable'
      apply leaves_replace hcurrent hdocs htables
      intro path' hpath hputs
      rw [Puts, hdocs]
      rw [Puts] at hputs
      split at hputs
      next hopen =>
        rw [if_pos hopen]
        obtain ⟨doc', hmem, rfl⟩ := hputs
        rcases List.mem_cons.mp hmem with rfl | hmem
        · apply absurd rfl hpath
        · exact ⟨doc', hmem, rfl⟩
      next => apply absurd hputs id

/-- A step on a current snapshot leads to another phase, which is about to do whatever is
left to do. -/
theorem step {phase : Phase} (hthread : phase.thread = .step op k)
    (hstep : LspOp.Step treeSitter op s x s') (hcurrent : op.Current s)
    (hreliable : s.index.Reliable) :
  Continues s s' phase (k x)
  := by
  cases phase with
  | opening path content version => apply step_opening hthread hstep hreliable
  | updating path content version => apply step_updating hthread hstep hreliable
  | syncing path count => apply step_syncing hthread hstep hcurrent hreliable
  | writing path symbols count => apply step_writing hthread hstep hcurrent hreliable
  | closing path => apply step_closing hthread hstep hreliable
  | removing path => apply step_removing hthread hstep hcurrent hreliable
  | clearing => apply step_clearing hthread hstep hreliable
  | listing => apply step_listing hthread hstep hcurrent hreliable
  | rebuilding documents total docs => apply step_rebuilding hthread hstep hcurrent hreliable
  | done outcome => cases hthread

end Step

end Phase

/-! ### Runs -/

/-- A state of the store with calls in progress. -/
abbrev LspPool : Type :=
  Pool LspOp LspAns (Outcome String LspReply) LspStore

/-- The next step of the `i`-th call is taken on a current snapshot. -/
def CurrentSnapshot (i : ℕ) (c : LspPool) : Prop :=
  ∀ op k, c.threads[i]? = some (.step op k) → op.Current c.state

/-- Every path is in step, or some call is about to put it in step. -/
def Settled (c : LspPool) : Prop :=
  ∃ phases : List Phase, c.threads = phases.map Phase.thread ∧ c.state.index.Reliable
    ∧ ∀ path, c.state.InStepAt path
      ∨ ∃ phase ∈ phases, phase.Puts c.state.docs.documents path

theorem settled_start {index : LspDb} (hreliable : index.Reliable) (hempty : index.tables = [])
    (calls : List LspCall) :
  Settled ⟨LspStore.new index, calls.map LspCall.program⟩
  := by
  use calls.map Phase.start
  constructor
  · rw [List.map_map]
    apply List.map_congr_left
    intro call _
    apply program_eq_start
  constructor
  · apply hreliable
  · intro path
    apply Or.inl (LspStore.inStep_new hempty path)

/-- A step on a current snapshot keeps every path settled. -/
theorem settled_step {treeSitter : TreeSitter} (i : ℕ) (c c' : LspPool) (hc : Settled c)
    (hcurrent : CurrentSnapshot i c) (hstep : Pool.Step (LspOp.Step treeSitter) i c c') :
  Settled c'
  := by
  obtain ⟨phases, hthreads, hreliable, hpaths⟩ := hc
  obtain ⟨op, k, x, hi, hop, hthreads'⟩ := (Pool.step_iff _).mp hstep
  have hcurrent' := hcurrent op k hi
  rw [hthreads, List.getElem?_map] at hi
  obtain ⟨phase, hphase, hthread⟩ := Option.map_eq_some_iff.mp hi
  obtain ⟨phase', hk, hreliable', hleaves⟩ := Phase.step hthread hop hcurrent' hreliable
  use phases.set i phase'
  constructor
  · rw [hthreads', hthreads, hk, List.map_set]
  constructor
  · apply hreliable'
  · intro path
    rcases hleaves path with hpath | hputs | ⟨hsame, hnot⟩
    · apply Or.inl hpath
    · apply Or.inr
      obtain ⟨hlt, -⟩ := List.getElem?_eq_some_iff.mp hphase
      exact ⟨phase', List.mem_set hlt phase', hputs⟩
    · rcases hpaths path with hpath | ⟨other, hmem, hputs⟩
      · apply Or.inl (hsame.inStepAt hpath)
      · apply Or.inr
        have hne : other ≠ phase := by
          rintro rfl
          apply hnot hputs
        use other, Pool.mem_set_of_ne phase' hmem hphase hne
        rw [Phase.puts_congr hsame]
        apply hputs

/-- When all calls have returned, after a run whose steps were taken on current snapshots,
every path is in step. -/
theorem inStep_of_run {treeSitter : TreeSitter} {index : LspDb} (hreliable : index.Reliable)
    (hempty : index.tables = []) (calls : List LspCall) {c : LspPool}
    (hrun : Pool.Run (LspOp.Step treeSitter) CurrentSnapshot
      ⟨LspStore.new index, calls.map LspCall.program⟩ c)
    (hreturned : c.Returned) :
  ∀ path, rowsAt path c.state.index.tables = openRows c.state.docs.documents path
  := by
  have hsettled := hrun.invariant settled_step (settled_start hreliable hempty calls)
  obtain ⟨phases, hthreads, -, hpaths⟩ := hsettled
  intro path
  rcases hpaths path with hpath | ⟨phase, hmem, hputs⟩
  · apply hpath
  · have hthread : phase.thread ∈ c.threads := by
      rw [hthreads]
      apply List.mem_map_of_mem hmem
    obtain ⟨outcome, hret⟩ := hreturned _ hthread
    exfalso
    cases phase with
    | done outcome => apply Phase.not_puts id id hputs
    | rebuilding documents total docs =>
        cases docs with
        | nil =>
            rw [Phase.Puts] at hputs
            split at hputs
            · obtain ⟨doc, hdoc, -⟩ := hputs
              cases hdoc
            · apply hputs
        | cons doc docs => cases hret
    | _ => cases hret

/-! ### Two runs -/

section MainDocument

theorem close_openedMain (extractor : SymbolExtractor) :
  (openedMain extractor).close "main.rs"
    = (.ok true, { openedMain extractor with
        documents := (openedMain extractor).documents.remove "main.rs" })
  := by
  rw [DocumentStore.close, get_openedMain]
  rfl

/-- A document is opened while the index is rebuilt: both calls write the same snapshot, and the
document ends in step. -/
theorem inStep_open_build :
  ∃ c : LspPool, Pool.Run (LspOp.Step sampleTreeSitter) CurrentSnapshot
      ⟨LspStore.new ⟨[], []⟩,
        [LspCall.openDocument "main.rs" mainSource 1, LspCall.buildIndex].map LspCall.program⟩ c
    ∧ c.Returned
    ∧ c.state.index.tables = flatten "main.rs" [mainSymbol]
    ∧ ∀ path, rowsAt path c.state.index.tables = openRows c.state.docs.documents path
  := by
  obtain ⟨extractor, -, hopen⟩ := open_mainSource
  let opened : LspStore := ⟨openedMain extractor, ⟨[], []⟩⟩
  let written : LspStore := ⟨openedMain extractor, ⟨flatten "main.rs" [mainSymbol], []⟩⟩
  have hopened : LspOp.Step sampleTreeSitter (.docsOpen "main.rs" mainSource 1)
      (LspStore.new ⟨[], []⟩) (Except.ok 1 : Outcome String ℕ) opened := ⟨hopen, rfl⟩
  have hclear : LspOp.Step sampleTreeSitter .indexClear opened
      (Except.ok () : Outcome String Unit) opened := ⟨rfl, rfl⟩
  have hget : LspOp.Step sampleTreeSitter (.docsGet "main.rs") opened
      (Except.ok (some mainDocument) : Outcome String _) opened :=
    ⟨(congrArg Except.ok (get_openedMain extractor)).symm, rfl⟩
  have hall : LspOp.Step sampleTreeSitter .docsAll opened
      (Except.ok [mainDocument] : Outcome String _) opened :=
    ⟨⟨[mainDocument], rfl, List.Perm.refl _⟩, rfl⟩
  have hwrite : LspOp.Step sampleTreeSitter (.indexReplace "main.rs" [mainSymbol])
      opened (Except.ok 1 : Outcome String ℕ) written := ⟨rfl, rfl⟩
  have hrewrite : LspOp.Step sampleTreeSitter (.indexReplace "main.rs" [mainSymbol])
      written (Except.ok 1 : Outcome String ℕ) written := ⟨rfl, rfl⟩
  have hstart : Pool.Run (LspOp.Step sampleTreeSitter) CurrentSnapshot
      ⟨LspStore.new ⟨[], []⟩,
        [LspCall.openDocument "main.rs" mainSource 1, LspCall.buildIndex].map LspCall.program⟩
      ⟨LspStore.new ⟨[], []⟩, [LspThread.opening "main.rs" mainSource 1, LspThread.clearing]⟩ := by
    rw [List.map_cons, program_eq_start, List.map_cons, program_eq_start]
    apply Pool.Run.refl
  have hcurrent : flatten "main.rs" [mainSymbol] = openRows opened.docs.documents "main.rs" :=
    (openRows_insert_self _ mainDocument).symm
  have hrun := hstart.next 0 _ rfl (by rintro _ _ ⟨⟩; trivial) hopened rfl
  replace hrun := hrun.next 1 _ rfl (by rintro _ _ ⟨⟩; trivial) hclear rfl
  replace hrun := hrun.next 0 _ rfl (by rintro _ _ ⟨⟩; rfl) hget rfl
  replace hrun := hrun.next 1 _ rfl (by rintro _ _ ⟨⟩; rfl) hall rfl
  replace hrun := hrun.next 0 _ rfl (by rintro _ _ ⟨⟩; apply hcurrent) hwrite rfl
  replace hrun := hrun.next 1 _ rfl (by rintro _ _ ⟨⟩; apply hcurrent) hrewrite rfl
  let results : List (Outcome String LspReply) := [.ok (.symbols 1), .ok (.indexed 1 1)]
  have hreturned : Pool.Returned (⟨written, results.map .ret⟩ : LspPool) :=
    Pool.returned_map_ret written results
  have hreliable : (⟨[], []⟩ : LspDb).Reliable := rfl
  exact ⟨⟨written, results.map .ret⟩, hrun, hreturned, rfl,
    inStep_of_run hreliable rfl _ hrun hreturned⟩

/-- A document is opened and closed at once: the snapshot of the open call is written after
the close call removed the rows, and stays in the index. -/
theorem not_inStep_open_close :
  ∃ c : LspPool, Pool.Run (LspOp.Step sampleTreeSitter) Pool.anyStep
      ⟨LspStore.new ⟨[], []⟩, [LspCall.openDocument "main.rs" mainSource 1,
        LspCall.closeDocument "main.rs"].map LspCall.program⟩ c
    ∧ c.Returned
    ∧ c.state.docs.documents.get "main.rs" = none
    ∧ rowsAt "main.rs" c.state.index.tables ≠ openRows c.state.docs.documents "main.rs"
  := by
  obtain ⟨extractor, -, hopen⟩ := open_mainSource
  let opened : LspStore := ⟨openedMain extractor, ⟨[], []⟩⟩
  let closed : LspStore :=
    ⟨{ openedMain extractor with
        documents := (openedMain extractor).documents.remove "main.rs" }, ⟨[], []⟩⟩
  let written : LspStore := ⟨closed.docs, ⟨flatten "main.rs" [mainSymbol], []⟩⟩
  have hopened : LspOp.Step sampleTreeSitter (.docsOpen "main.rs" mainSource 1)
      (LspStore.new ⟨[], []⟩) (Except.ok 1 : Outcome String ℕ) opened := ⟨hopen, rfl⟩
  have hget : LspOp.Step sampleTreeSitter (.docsGet "main.rs") opened
      (Except.ok (some mainDocument) : Outcome String _) opened :=
    ⟨(congrArg Except.ok (get_openedMain extractor)).symm, rfl⟩
  have hclose : LspOp.Step sampleTreeSitter (.docsClose "main.rs")
      opened (Except.ok true : Outcome String Bool) closed := ⟨close_openedMain extractor, rfl⟩
  have hremove : LspOp.Step sampleTreeSitter (.indexRemove "main.rs")
      closed (Except.ok () : Outcome String Unit) closed := ⟨rfl, rfl⟩
  have hwrite : LspOp.Step sampleTreeSitter (.indexReplace "main.rs" [mainSymbol])
      closed (Except.ok 1 : Outcome String ℕ) written := ⟨rfl, rfl⟩
  have hstart : Pool.Run (LspOp.Step sampleTreeSitter) Pool.anyStep
      ⟨LspStore.new ⟨[], []⟩, [LspCall.openDocument "main.rs" mainSource 1,
        LspCall.closeDocument "main.rs"].map LspCall.program⟩
      ⟨LspStore.new ⟨[], []⟩,
        [LspThread.opening "main.rs" mainSource 1, LspThread.closing "main.rs"]⟩ := by
    rw [List.map_cons, program_eq_start, List.map_cons, program_eq_start]
    apply Pool.Run.refl
  have hrun := hstart.next 0 _ rfl trivial hopened rfl
  replace hrun := hrun.next 0 _ rfl trivial hget rfl
  replace hrun := hrun.next 1 _ rfl trivial hclose rfl
  replace hrun := hrun.next 1 _ rfl trivial hremove rfl
  replace hrun := hrun.next 0 _ rfl trivial hwrite rfl
  let results : List (Outcome String LspReply) := [.ok (.symbols 1), .ok (.closed true)]
  use ⟨written, results.map .ret⟩, hrun
  constructor
  · apply Pool.returned_map_ret written results
  constructor
  · apply Documents.get_remove_self
  · rw [openRows_of_get_none (Documents.get_remove_self _ _), rowsAt_flatten_self]
    apply List.cons_ne_nil

end MainDocument

end OrchestraRag
