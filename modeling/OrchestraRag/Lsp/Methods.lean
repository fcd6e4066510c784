import OrchestraRag.Lsp.Store

/-!
# What a method leaves

A call is a thread of atomic steps, spelled out in `LspThread`.  Run alone, from its first
step to its return, on an index whose statements may fail, it ends as the theorems of this
module say: one for each method of the store.
-/

namespace OrchestraRag

/-! ### Threads -/

/-- A call in progress. -/
abbrev LspThread : Type :=
  Program LspOp LspAns (Outcome String LspReply)

namespace LspThread

/-- About to write a snapshot of the symbols of a document to the index. -/
def writing (path : String) (symbols : List CodeSymbol) (count : ℕ) : LspThread :=
  .step (.indexReplace path symbols) fun (x : Outcome String ℕ) =>
    .ret (x.map fun _ => .symbols count)

/-- About to take a snapshot of a document. -/
def syncing (path : String) (count : ℕ) : LspThread :=
  .step (.docsGet path) fun (x : Outcome String (Option Document)) =>
    match x with
    | .ok (some doc) => writing doc.path doc.symbols count
    | .ok none => .ret (.ok (.symbols count))
    | .error e => .ret (.error e)

def opening (path content : String) (version : Int64) : LspThread :=
  .step (.docsOpen path content version) fun (x : Outcome String ℕ) =>
    match x with
    | .ok count => syncing path count
    | .error e => .ret (.error e)

def updating (path content : String) (version : Int64) : LspThread :=
  .step (.docsUpdate path content version) fun (x : Outcome String ℕ) =>
    match x with
    | .ok count => syncing path count
    | .error e => .ret (.error e)

/-- About to remove the rows of a document that was closed. -/
def removing (path : String) : LspThread :=
  .step (.indexRemove path) fun (x : Outcome String Unit) => .ret (x.map fun _ => .closed true)

def closing (path : String) : LspThread :=
  .step (.docsClose path) fun (x : Outcome String Bool) =>
    match x with
    | .ok true => removing path
    | .ok false => .ret (.ok (.closed false))
    | .error e => .ret (.error e)

/-- About to index the rest of a snapshot of all documents. -/
def rebuilding (documents total : ℕ) : List Document → LspThread
  | [] => .ret (.ok (.indexed documents total))
  | doc :: docs =>
      .step (.indexReplace doc.path doc.symbols) fun (x : Outcome String ℕ) =>
        match x with
        | .ok count => rebuilding documents (total + count) docs
        | .error e => .ret (.error e)

/-- About to take a snapshot of all documents. -/
def listing : LspThread :=
  .step .docsAll fun (x : Outcome String (List Document)) =>
    match x with
    | .ok docs => rebuilding docs.length 0 docs
    | .error e => .ret (.error e)

def clearing : LspThread :=
  .step .indexClear fun (x : Outcome String Unit) =>
    match x with
    | .ok () => listing
    | .error e => .ret (.error e)

end LspThread

theorem syncDocumentToIndex_eq (path : String) (count : ℕ) :
  (LspReply.symbols <$> (do LspStore.syncDocumentToIndex path; pure count) : LspM LspReply).run
    = LspThread.syncing path count
  := by
  apply congrArg (Program.step (LspOp.docsGet path))
  funext x
  rcases (x : Outcome String (Option Document)) with e | (_ | doc)
  · rfl
  · rfl
  · apply congrArg (Program.step (LspOp.indexReplace doc.path doc.symbols))
    funext x
    rcases (x : Outcome String ℕ) with e | n
    · rfl
    · rfl

theorem indexDocuments_eq (documents total : ℕ) (docs : List Document) :
  ((fun r : ℕ × ℕ => LspReply.indexed r.1 r.2) <$> (do
      let totalSymbols ← LspStore.indexDocuments total docs
      pure (documents, totalSymbols)) : LspM LspReply).run
    = LspThread.rebuilding documents total docs
  := by
  induction docs generalizing total with
  | nil => rfl
  | cons doc docs ih =>
      apply congrArg (Program.step (LspOp.indexReplace doc.path doc.symbols))
      funext x
      rcases (x : Outcome String ℕ) with e | count
      · rfl
      · apply ih (total + count)

theorem program_openDocument (path content : String) (version : Int64) :
  (LspCall.openDocument path content version).program = LspThread.opening path content version
  := by
  apply congrArg (Program.step (LspOp.docsOpen path content version))
  funext x
  rcases (x : Outcome String ℕ) with e | count
  · rfl
  · apply syncDocumentToIndex_eq

theorem program_updateDocument (path content : String) (version : Int64) :
  (LspCall.updateDocument path content version).program
    = LspThread.updating path content version
  := by
  apply congrArg (Program.step (LspOp.docsUpdate path content version))
  funext x
  rcases (x : Outcome String ℕ) with e | count
  · rfl
  · apply syncDocumentToIndex_eq

theorem program_closeDocument (path : String) :
  (LspCall.closeDocument path).program = LspThread.closing path
  := by
  apply congrArg (Program.step (LspOp.docsClose path))
  funext x
  rcases (x : Outcome String Bool) with e | (_ | _)
  · rfl
  · rfl
  · apply congrArg (Program.step (LspOp.indexRemove path))
    funext x
    rcases (x : Outcome String Unit) with e | u
    · rfl
    · rfl

theorem program_buildIndex :
  LspCall.buildIndex.program = LspThread.clearing
  := by
  apply congrArg (Program.step LspOp.indexClear)
  funext x
  rcases (x : Outcome String Unit) with e | u
  · rfl
  · apply congrArg (Program.step LspOp.docsAll)
    funext x
    rcases (x : Outcome String (List Document)) with e | docs
    · rfl
    · apply indexDocuments_eq

/-! ### Calls run alone -/

/-- The call `call`, run alone from `s`, may end with `result` and leave `s'`. -/
abbrev Calls (treeSitter : TreeSitter) (s : LspStore) (call : LspCall)
    (result : Outcome String LspReply) (s' : LspStore) : Prop :=
  Program.Exec (LspOp.Step treeSitter) call.program s result s'

section Calls

variable {treeSitter : TreeSitter} {s s' : LspStore} {r : Outcome String LspReply}

theorem exec_writing {path : String} {symbols : List CodeSymbol} {count : ℕ}
    (h : Program.Exec (LspOp.Step treeSitter) (LspThread.writing path symbols count) s r s') :
  ∃ x, SymbolIndex.replaceDocumentSymbols path symbols s.index = (x, s'.index)
    ∧ s'.docs = s.docs ∧ r = x.map (fun _ => LspReply.symbols count)
  := by
  obtain ⟨x, s₁, ⟨hreplace, hdocs⟩, h⟩ := Program.exec_step.mp h
  obtain ⟨rfl, rfl⟩ := Program.exec_ret.mp h
  exact ⟨x, hreplace, hdocs, rfl⟩

/-- Syncing writes the symbols cached for a path, if it is open. -/
theorem exec_syncing {path : String} {count : ℕ}
    (h : Program.Exec (LspOp.Step treeSitter) (LspThread.syncing path count) s r s')
    (hpoisoned : s.docs.poisoned = false) {doc : Document}
    (hget : s.docs.documents.get path = some doc) :
  ∃ x, SymbolIndex.replaceDocumentSymbols path doc.symbols s.index = (x, s'.index)
    ∧ s'.docs = s.docs ∧ r = x.map (fun _ => LspReply.symbols count)
  := by
  obtain ⟨x, s₁, ⟨rfl, rfl⟩, hwriting⟩ := Program.exec_step.mp h
  rw [DocumentStore.get, hpoisoned, hget] at hwriting
  obtain rfl := Documents.path_of_get hget
  apply exec_writing hwriting

/-- Opening a document stores it and writes its rows, or fails before it changes any document
or row. -/
theorem calls_openDocument {path content : String} {version : Int64}
    (h : Calls treeSitter s (.openDocument path content version) r s') :
  (∃ e, r = .error e ∧ s'.docs.documents = s.docs.documents ∧ s'.index = s.index
      ∧ (s.docs.poisoned = true
        ∨ (parseSymbols treeSitter content (detectLanguage path) s.docs.extractor).1.Panicked))
    ∨ ∃ doc x, doc.path = path ∧ doc.content = content ∧ doc.version = version
      ∧ s'.docs.documents = s.docs.documents.insert doc ∧ s'.docs.poisoned = false
      ∧ SymbolIndex.replaceDocumentSymbols path doc.symbols s.index = (x, s'.index)
      ∧ r = x.map (fun _ => LspReply.symbols doc.symbolCount)
      ∧ s.docs.poisoned = false
      ∧ (parseSymbols treeSitter content (detectLanguage path) s.docs.extractor).1
        = .ok doc.symbols
  := by
  rw [Calls, program_openDocument] at h
  obtain ⟨x, s₁, ⟨hopen, hindex⟩, h⟩ := Program.exec_step.mp h
  rcases DocumentStore.open_cases hopen with
    ⟨doc, rfl, hcontent, hversion, rfl, hdocs, hbefore, hpoisoned, hsymbols⟩
      | ⟨e, rfl, hdocs, -, hwhy⟩
  · have hget : s₁.docs.documents.get doc.path = some doc := by
      rw [hdocs, Documents.get_insert_self]
    obtain ⟨x, hreplace, hsame, rfl⟩ := exec_syncing h hpoisoned hget
    rw [hindex] at hreplace
    apply Or.inr
    use doc, x, rfl, hcontent, hversion
    rw [hsame]
    exact ⟨hdocs, hpoisoned, hreplace, rfl, hbefore, hsymbols⟩
  · obtain ⟨rfl, rfl⟩ := Program.exec_ret.mp h
    exact Or.inl ⟨e, rfl, hdocs, hindex, hwhy⟩

/-- Updating a document stores it and writes its rows, or fails before it changes any row: the
document is not open or the mutex is poisoned, and nothing changes; or extraction panics. -/
theorem calls_updateDocument {path content : String} {version : Int64}
    (h : Calls treeSitter s (.updateDocument path content version) r s') :
  (∃ e, r = .error e ∧ s' = s
      ∧ (s.docs.poisoned = true ∨ s.docs.documents.get path = none))
    ∨ (∃ e old doc, r = .error e ∧ s.docs.documents.get path = some old ∧ doc.path = path
      ∧ doc.content = content ∧ doc.version = version ∧ doc.symbols = old.symbols
      ∧ s'.docs.documents = s.docs.documents.insert doc
      ∧ s'.docs.poisoned = true ∧ s'.index = s.index ∧ s.docs.poisoned = false
      ∧ (parseSymbols treeSitter content old.language s.docs.extractor).1.Panicked)
    ∨ ∃ old doc x, s.docs.documents.get path = some old ∧ doc.path = path
      ∧ doc.content = content ∧ doc.version = version
      ∧ s'.docs.documents = s.docs.documents.insert doc ∧ s'.docs.poisoned = false
      ∧ SymbolIndex.replaceDocumentSymbols path doc.symbols s.index = (x, s'.index)
      ∧ r = x.map (fun _ => LspReply.symbols doc.symbolCount)
      ∧ s.docs.poisoned = false
      ∧ (parseSymbols treeSitter content old.language s.docs.extractor).1 = .ok doc.symbols
  := by
  rw [Calls, program_updateDocument] at h
  obtain ⟨x, s₁, ⟨hupdate, hindex⟩, h⟩ := Program.exec_step.mp h
  rcases DocumentStore.update_cases hupdate with
    ⟨old, doc, hold, rfl, hcontent, hversion, rfl, hdocs, hbefore, hpoisoned, hsymbols⟩
      | ⟨e, rfl, hdocs, hwhy⟩
      | ⟨e, old, doc, rfl, hold, hpath, hcontent, hversion, hsymbols, hdocs, hpoisoned, hbefore,
        hpanicked⟩
  · have hget : s₁.docs.documents.get doc.path = some doc := by
      rw [hdocs, Documents.get_insert_self]
    obtain ⟨x, hreplace, hsame, rfl⟩ := exec_syncing h hpoisoned hget
    rw [hindex] at hreplace
    apply Or.inr
    apply Or.inr
    use old, doc, x, hold, rfl, hcontent, hversion
    rw [hsame]
    exact ⟨hdocs, hpoisoned, hreplace, rfl, hbefore, hsymbols⟩
  · obtain ⟨rfl, rfl⟩ := Program.exec_ret.mp h
    obtain ⟨docs, index⟩ := s'
    obtain rfl := hdocs
    obtain rfl := hindex
    exact Or.inl ⟨e, rfl, rfl, hwhy⟩
  · obtain ⟨rfl, rfl⟩ := Program.exec_ret.mp h
    apply Or.inr
    apply Or.inl
    use e, old, doc, rfl, hold, hpath, hcontent, hversion, hsymbols, hdocs, hpoisoned, hindex,
      hbefore

/-- Closing a document fails on a poisoned mutex and changes nothing; otherwise the document
is gone, and if it was open its rows are removed. -/
theorem calls_closeDocument {path : String} (h : Calls treeSitter s (.closeDocument path) r s') :
  (r = .error DocumentStore.lockPoisoned ∧ s' = s ∧ s.docs.poisoned = true)
    ∨ (s.docs.poisoned = false ∧ s'.docs.poisoned = false
      ∧ s'.docs.documents = s.docs.documents.remove path
      ∧ ((s.docs.documents.get path = none ∧ s'.index = s.index ∧ r = .ok (.closed false))
        ∨ ∃ doc x, s.docs.documents.get path = some doc
          ∧ SymbolIndex.removeDocument path s.index = (x, s'.index)
          ∧ r = x.map (fun _ => LspReply.closed true)))
  := by
  rw [Calls, program_closeDocument] at h
  obtain ⟨x, s₁, ⟨hclose, hindex⟩, h⟩ := Program.exec_step.mp h
  rcases DocumentStore.close_cases hclose with
    ⟨rfl, hdocs, hpoisoned, hpoisoned'⟩ | ⟨rfl, hdocs, hpoisoned⟩
  · apply Or.inr
    cases hget : s.docs.documents.get path with
    | none =>
        rw [hget] at h
        obtain ⟨rfl, rfl⟩ := Program.exec_ret.mp h
        exact ⟨hpoisoned, hpoisoned', hdocs, Or.inl ⟨rfl, hindex, rfl⟩⟩
    | some doc =>
        rw [hget] at h
        obtain ⟨x, s₂, ⟨hremove, hsame⟩, h⟩ := Program.exec_step.mp h
        obtain ⟨rfl, rfl⟩ := Program.exec_ret.mp h
        rw [hindex] at hremove
        rw [hsame]
        exact ⟨hpoisoned, hpoisoned', hdocs, Or.inr ⟨doc, x, rfl, hremove, rfl⟩⟩
  · obtain ⟨rfl, rfl⟩ := Program.exec_ret.mp h
    obtain ⟨docs, index⟩ := s'
    obtain rfl := hdocs
    obtain rfl := hindex
    exact Or.inl ⟨rfl, rfl, hpoisoned⟩

/-- Indexing documents that have no rows yet adds their rows, or fails and adds the first of
them. -/
theorem exec_rebuilding {documents total : ℕ} {docs : List Document}
    (h : Program.Exec (LspOp.Step treeSitter) (LspThread.rebuilding documents total docs) s r s')
    (hnodup : (docs.map Document.path).Nodup)
    (hnew : ∀ row ∈ s.index.tables, row.documentPath ∉ docs.map Document.path) :
  s'.docs = s.docs
    ∧ ((r = .ok (.indexed documents (total + (rowsOf docs).length))
        ∧ s'.index.tables = s.index.tables ++ rowsOf docs)
      ∨ ∃ e rows, r = .error e ∧ ¬ s.index.Reliable ∧ rows <+: rowsOf docs
        ∧ s'.index.tables = s.index.tables ++ rows)
  := by
  induction docs generalizing s total with
  | nil =>
      obtain ⟨rfl, rfl⟩ := Program.exec_ret.mp h
      exact ⟨rfl, Or.inl ⟨rfl, (List.append_nil _).symm⟩⟩
  | cons doc docs ih =>
      obtain ⟨hdoc, hnodup⟩ := List.nodup_cons.mp hnodup
      obtain ⟨x, s₁, ⟨hreplace, hdocs⟩, h⟩ := Program.exec_step.mp h
      have hother : ∀ row ∈ s.index.tables, row.documentPath ≠ doc.path := by
        intro row hrow heq
        apply hnew row hrow
        rw [heq]
        apply List.mem_cons_self
      rcases SymbolIndex.replaceDocumentSymbols_new doc.symbols hother with
        ⟨db, hcall, htables⟩ | ⟨e, db, rows, hcall, hfirst, htables⟩
      · obtain ⟨rfl, hindex⟩ := Prod.mk.inj (hreplace.symm.trans hcall)
        rw [← hindex] at htables
        have hnew' : ∀ row ∈ s₁.index.tables, row.documentPath ∉ docs.map Document.path := by
          intro row hrow
          rw [htables] at hrow
          rcases List.mem_append.mp hrow with hrow | hrow
          · intro hmem
            apply hnew row hrow (List.mem_cons_of_mem _ hmem)
          · rw [documentPath_of_mem_flatten hrow]
            apply hdoc
        obtain ⟨hdocs', hrest⟩ := ih h hnodup hnew'
        rw [hdocs] at hdocs'
        use hdocs'
        rw [htables] at hrest
        rcases hrest with ⟨rfl, hrows⟩ | ⟨e, rows, rfl, hfault, hprefix, hrows⟩
        · apply Or.inl
          rw [rowsOf_cons, List.length_append, ← Nat.add_assoc, ← List.append_assoc]
          exact ⟨rfl, hrows⟩
        · apply Or.inr
          rw [List.append_assoc] at hrows
          have hfault' : ¬ s.index.Reliable := by
            intro hreliable
            apply hfault
            apply (SymbolIndex.reliable_of_replaceDocumentSymbols hreliable hreplace).2
          use e, flatten doc.path doc.symbols ++ rows, rfl, hfault'
          rw [rowsOf_cons]
          exact ⟨(List.prefix_append_right_inj _).mpr hprefix, hrows⟩
      · obtain ⟨rfl, hindex⟩ := Prod.mk.inj (hreplace.symm.trans hcall)
        obtain ⟨rfl, rfl⟩ := Program.exec_ret.mp h
        use hdocs
        have hfault : ¬ s.index.Reliable := by
          intro hreliable
          cases (SymbolIndex.reliable_of_replaceDocumentSymbols hreliable hcall).1
        apply Or.inr
        rw [← hindex] at htables
        use e, rows, rfl, hfault
        rw [rowsOf_cons]
        exact ⟨hfirst.trans (List.prefix_append _ _), htables⟩

/-- On an empty index, indexing all documents ends with their rows, or fails: on a poisoned mutex,
with no rows; or when a statement fails, with the first of the rows. -/
theorem exec_listing (h : Program.Exec (LspOp.Step treeSitter) LspThread.listing s r s')
    (hempty : s.index.tables = []) :
  s'.docs = s.docs
    ∧ ((∃ docs, s.docs.poisoned = false ∧ docs.Perm s.docs.documents.values
        ∧ r = .ok (.indexed docs.length (rowsOf docs).length)
        ∧ s'.index.tables = rowsOf docs)
      ∨ (s.docs.poisoned = true ∧ r = .error DocumentStore.lockPoisoned
        ∧ s'.index.tables = [])
      ∨ (∃ e, r = .error e ∧ ¬ s.index.Reliable
        ∧ ∃ docs, docs.Perm s.docs.documents.values ∧ s'.index.tables <+: rowsOf docs))
  := by
  obtain ⟨x, s₁, ⟨hall, rfl⟩, h⟩ := Program.exec_step.mp h
  cases hpoisoned : s₁.docs.poisoned with
  | true =>
      obtain rfl := hall.error hpoisoned
      obtain ⟨rfl, rfl⟩ := Program.exec_ret.mp h
      exact ⟨rfl, Or.inr (Or.inl ⟨rfl, rfl, hempty⟩)⟩
  | false =>
      obtain ⟨docs, rfl, hperm⟩ := hall.ok hpoisoned
      have hnodup : (docs.map Document.path).Nodup :=
        (hperm.map Document.path).nodup_iff.mpr s₁.docs.documents.nodup_paths
      have hnew : ∀ row ∈ s₁.index.tables, row.documentPath ∉ docs.map Document.path := by
        rw [hempty]
        intro row hrow
        cases hrow
      obtain ⟨hdocs, hrest⟩ := exec_rebuilding h hnodup hnew
      rw [hempty, Nat.zero_add] at hrest
      use hdocs
      rcases hrest with ⟨rfl, hrows⟩ | ⟨e, rows, rfl, hreliable, hprefix, hrows⟩
      · exact Or.inl ⟨docs, rfl, hperm, rfl, hrows⟩
      · rw [List.nil_append] at hrows
        rw [← hrows] at hprefix
        exact Or.inr (Or.inr ⟨e, rfl, hreliable, docs, hperm, hprefix⟩)

/-- Rebuilding the index leaves the documents.  It ends with the rows of all open documents, or
fails: on a poisoned mutex, with no rows; or when a statement fails, with the rows as they were
or with the first of the rows of all open documents. -/
theorem calls_buildIndex (h : Calls treeSitter s .buildIndex r s') :
  s'.docs = s.docs
    ∧ ((∃ docs, s.docs.poisoned = false ∧ docs.Perm s.docs.documents.values
        ∧ r = .ok (.indexed docs.length (rowsOf docs).length)
        ∧ s'.index.tables = rowsOf docs)
      ∨ (s.docs.poisoned = true ∧ r = .error DocumentStore.lockPoisoned
        ∧ s'.index.tables = [])
      ∨ (∃ e, r = .error e ∧ ¬ s.index.Reliable
        ∧ (s'.index.tables = s.index.tables
          ∨ ∃ docs, docs.Perm s.docs.documents.values ∧ s'.index.tables <+: rowsOf docs)))
  := by
  rw [Calls, program_buildIndex] at h
  obtain ⟨x, s₁, ⟨hclear, hdocs⟩, h⟩ := Program.exec_step.mp h
  cases hfault : s.index.nextFault with
  | some message =>
      rw [SymbolIndex.clear_error hfault] at hclear
      obtain ⟨rfl, hindex⟩ := Prod.mk.inj hclear
      obtain ⟨rfl, rfl⟩ := Program.exec_ret.mp h
      have hreliable : ¬ s.index.Reliable := by
        intro hreliable
        rw [hreliable.nextFault] at hfault
        cases hfault
      use hdocs
      apply Or.inr
      apply Or.inr
      use sqlFailure "clear" message, rfl, hreliable
      rw [← hindex]
      exact Or.inl rfl
  | none =>
      rw [SymbolIndex.clear_ok hfault] at hclear
      obtain ⟨rfl, hindex⟩ := Prod.mk.inj hclear
      have hempty : s₁.index.tables = [] := by
        rw [← hindex, Sql.Db.after_tables]
      obtain ⟨hdocs', hrest⟩ := exec_listing h hempty
      rw [hdocs] at hdocs' hrest
      use hdocs'
      rcases hrest with hok | hpoisoned | ⟨e, rfl, hfaulty, hprefix⟩
      · exact Or.inl hok
      · exact Or.inr (Or.inl hpoisoned)
      · have hfaulty' : ¬ s.index.Reliable := by
          intro hreliable
          apply hfaulty
          rw [← hindex]
          apply hreliable.after
        exact Or.inr (Or.inr ⟨e, rfl, hfaulty', Or.inr hprefix⟩)

/-! ### Other paths -/

/-- Replacing the symbols of a document leaves the rows of all others, failed or not. -/
theorem rowsAt_replaceDocumentSymbols_of_ne {path path' : String} {symbols : List CodeSymbol}
    {db db' : LspDb} {x : Outcome String ℕ}
    (h : SymbolIndex.replaceDocumentSymbols path symbols db = (x, db')) (hne : path' ≠ path) :
  rowsAt path' db'.tables = rowsAt path' db.tables
  := by
  rcases SymbolIndex.replaceDocumentSymbols_cases path symbols db with
    ⟨db₁, hcall, htables⟩ | ⟨e, db₁, hcall, htables⟩
  · rw [hcall] at h
    obtain ⟨-, rfl⟩ := Prod.mk.inj h
    rw [htables, rowsAt_append, rowsAt_deleteRows_of_ne hne, rowsAt_flatten_of_ne hne,
      List.append_nil]
  · rw [hcall] at h
    obtain ⟨-, rfl⟩ := Prod.mk.inj h
    rcases htables with htables | ⟨inserted, missing, hsplit, -, htables⟩
    · rw [htables]
    · have hinserted : rowsAt path' inserted = [] := by
        have hflatten := rowsAt_flatten_of_ne hne symbols
        rw [hsplit, rowsAt_append] at hflatten
        apply (List.append_eq_nil_iff.mp hflatten).1
      rw [htables, rowsAt_append, rowsAt_deleteRows_of_ne hne, hinserted, List.append_nil]

/-- Removing the rows of a document leaves the rows of all others, failed or not. -/
theorem rowsAt_removeDocument_of_ne {path path' : String} {db db' : LspDb}
    {x : Outcome String Unit} (h : SymbolIndex.removeDocument path db = (x, db'))
    (hne : path' ≠ path) :
  rowsAt path' db'.tables = rowsAt path' db.tables
  := by
  cases hfault : db.nextFault with
  | none =>
      rw [SymbolIndex.removeDocument_ok hfault] at h
      obtain ⟨-, rfl⟩ := Prod.mk.inj h
      apply rowsAt_deleteRows_of_ne hne
  | some e =>
      rw [SymbolIndex.removeDocument_error hfault] at h
      obtain ⟨-, rfl⟩ := Prod.mk.inj h
      rfl

/-- A call about a path leaves the rows of all other paths, failed or not. -/
theorem rowsAt_of_calls_of_ne {call : LspCall} (h : Calls treeSitter s call r s')
    {path path' : String} (hpath : call.path? = some path) (hne : path' ≠ path) :
  rowsAt path' s'.index.tables = rowsAt path' s.index.tables
  := by
  cases call with
  | openDocument p content version =>
      obtain rfl := Option.some.inj hpath
      rcases calls_openDocument h with
        ⟨e, -, -, hindex, -⟩ | ⟨doc, x, -, -, -, -, -, hreplace, -⟩
      · rw [hindex]
      · apply rowsAt_replaceDocumentSymbols_of_ne hreplace hne
  | updateDocument p content version =>
      obtain rfl := Option.some.inj hpath
      rcases calls_updateDocument h with ⟨e, -, rfl, -⟩
        | ⟨e, old, doc, -, -, -, -, -, -, -, -, hindex, -⟩
        | ⟨old, doc, x, -, -, -, -, -, -, hreplace, -⟩
      · rfl
      · rw [hindex]
      · apply rowsAt_replaceDocumentSymbols_of_ne hreplace hne
  | closeDocument p =>
      obtain rfl := Option.some.inj hpath
      rcases calls_closeDocument h with
        ⟨-, rfl, -⟩ | ⟨-, -, -, ⟨-, hindex, -⟩ | ⟨doc, x, -, hremove, -⟩⟩
      · rfl
      · rw [hindex]
      · apply rowsAt_removeDocument_of_ne hremove hne
  | buildIndex => cases hpath

/-- A call about a path leaves the documents of all other paths, failed or not. -/
theorem get_of_calls_of_ne {call : LspCall} (h : Calls treeSitter s call r s')
    {path path' : String} (hpath : call.path? = some path) (hne : path' ≠ path) :
  s'.docs.documents.get path' = s.docs.documents.get path'
  := by
  cases call with
  | openDocument p content version =>
      obtain rfl := Option.some.inj hpath
      rcases calls_openDocument h with ⟨e, -, hdocs, -⟩ | ⟨doc, x, rfl, -, -, hdocs, -⟩
      · rw [hdocs]
      · rw [hdocs, Documents.get_insert_of_ne hne]
  | updateDocument p content version =>
      obtain rfl := Option.some.inj hpath
      rcases calls_updateDocument h with ⟨e, -, rfl, -⟩ | ⟨e, old, doc, -, -, rfl, -, -, -, hdocs, -⟩
        | ⟨old, doc, x, -, rfl, -, -, hdocs, -⟩
      · rfl
      · rw [hdocs, Documents.get_insert_of_ne hne]
      · rw [hdocs, Documents.get_insert_of_ne hne]
  | closeDocument p =>
      obtain rfl := Option.some.inj hpath
      rcases calls_closeDocument h with ⟨-, rfl, -⟩ | ⟨-, -, hdocs, -⟩
      · rfl
      · rw [hdocs, Documents.get_remove_of_ne hne]
  | buildIndex => cases hpath

/-! ### All calls -/

/-- No call makes an index fail that does not. -/
theorem reliable_of_calls {call : LspCall} (h : Calls treeSitter s call r s')
    (hs : s.index.Reliable) :
  s'.index.Reliable
  := by
  apply h.invariant _ hs
  intro op s x s' hs hstep
  cases op with
  | indexReplace path symbols =>
      apply (SymbolIndex.reliable_of_replaceDocumentSymbols hs hstep.1).2
  | indexRemove path =>
      rw [← (Prod.mk.inj ((SymbolIndex.removeDocument_ok hs.nextFault).symm.trans hstep.1)).2]
      apply hs.after
  | indexClear =>
      rw [← (Prod.mk.inj ((SymbolIndex.clear_ok hs.nextFault).symm.trans hstep.1)).2]
      apply hs.after
  | docsOpen path content version =>
      rw [hstep.2]
      apply hs
  | docsClose path =>
      rw [hstep.2]
      apply hs
  | docsUpdate path content version =>
      rw [hstep.2]
      apply hs
  | docsGet path =>
      rw [hstep.2]
      apply hs
  | docsAll =>
      rw [hstep.2]
      apply hs

/-- Every call returns. -/
theorem calls_total (treeSitter : TreeSitter) (s : LspStore) (call : LspCall) :
  ∃ r s', Calls treeSitter s call r s'
  := by
  apply Program.exec_total
  intro op s
  cases op with
  | docsOpen path content version => exact ⟨_, ⟨_, s.index⟩, rfl, rfl⟩
  | docsClose path => exact ⟨_, ⟨_, s.index⟩, rfl, rfl⟩
  | docsUpdate path content version => exact ⟨_, ⟨_, s.index⟩, rfl, rfl⟩
  | docsGet path => exact ⟨_, s, rfl, rfl⟩
  | docsAll =>
      cases hpoisoned : s.docs.poisoned with
      | false =>
          have hall : s.docs.AllDocuments (.ok s.docs.documents.values) := by
            rw [DocumentStore.AllDocuments, hpoisoned]
            exact ⟨_, rfl, List.Perm.refl _⟩
          exact ⟨_, s, hall, rfl⟩
      | true =>
          have hall : s.docs.AllDocuments (.error DocumentStore.lockPoisoned) := by
            rw [DocumentStore.AllDocuments, hpoisoned]
            rfl
          exact ⟨_, s, hall, rfl⟩
  | indexReplace path symbols => exact ⟨_, ⟨s.docs, _⟩, rfl, rfl⟩
  | indexRemove path => exact ⟨_, ⟨s.docs, _⟩, rfl, rfl⟩
  | indexClear => exact ⟨_, ⟨s.docs, _⟩, rfl, rfl⟩

end Calls

/-! ### Sample calls -/

/-- `mainSource`, open as `main.rs` and indexed. -/
def indexedMain (extractor : SymbolExtractor) : LspStore :=
  ⟨openedMain extractor, ⟨flatten "main.rs" [mainSymbol], []⟩⟩

/-- A fresh store opens `mainSource`, and its index is left with what the statements leave. -/
theorem calls_open_main {faults : List (Option String)} {x : Outcome String ℕ} {index : LspDb}
    (h : SymbolIndex.replaceDocumentSymbols "main.rs" [mainSymbol] ⟨[], faults⟩ = (x, index)) :
  ∃ extractor, extractor.parser.Coherent sampleTreeSitter
    ∧ Calls sampleTreeSitter (LspStore.new ⟨[], faults⟩) (.openDocument "main.rs" mainSource 1)
      (x.map fun _ => .symbols 1) ⟨openedMain extractor, index⟩
  := by
  obtain ⟨extractor, hcoherent, hopen⟩ := open_mainSource
  use extractor, hcoherent
  let opened : LspStore := ⟨openedMain extractor, ⟨[], faults⟩⟩
  have hopened : LspOp.Step sampleTreeSitter (.docsOpen "main.rs" mainSource 1)
      (LspStore.new ⟨[], faults⟩) (Except.ok 1 : Outcome String ℕ) opened := ⟨hopen, rfl⟩
  have hget : LspOp.Step sampleTreeSitter (.docsGet "main.rs") opened
      (Except.ok (some mainDocument) : Outcome String _) opened :=
    ⟨(congrArg Except.ok (get_openedMain extractor)).symm, rfl⟩
  have hwrite : LspOp.Step sampleTreeSitter (.indexReplace "main.rs" [mainSymbol]) opened x
      ⟨openedMain extractor, index⟩ := ⟨h, rfl⟩
  rw [Calls, program_openDocument]
  apply Program.Exec.step hopened
  apply Program.Exec.step hget
  apply Program.Exec.step hwrite
  apply Program.Exec.ret

/-- Without database errors, a fresh store opens and indexes `mainSource`. -/
theorem calls_open_mainSource :
  ∃ extractor, extractor.parser.Coherent sampleTreeSitter
    ∧ Calls sampleTreeSitter (LspStore.new ⟨[], []⟩) (.openDocument "main.rs" mainSource 1)
      (.ok (.symbols 1)) (indexedMain extractor)
  := calls_open_main rfl

theorem calls_close_indexedMain (extractor : SymbolExtractor) :
  Calls sampleTreeSitter (indexedMain extractor) (.closeDocument "main.rs") (.ok (.closed true))
    ⟨{ openedMain extractor with
      documents := (openedMain extractor).documents.remove "main.rs" }, ⟨[], []⟩⟩
  := by
  let closed : DocumentStore :=
    { openedMain extractor with documents := (openedMain extractor).documents.remove "main.rs" }
  have hclosed : (openedMain extractor).close "main.rs" = (.ok true, closed) := by
    rw [DocumentStore.close, get_openedMain]
    rfl
  have hclose : LspOp.Step sampleTreeSitter (.docsClose "main.rs") (indexedMain extractor)
      (Except.ok true : Outcome String Bool) ⟨closed, (indexedMain extractor).index⟩ :=
    ⟨hclosed, rfl⟩
  have hdelete : LspOp.Step sampleTreeSitter (.indexRemove "main.rs")
      ⟨closed, (indexedMain extractor).index⟩ (Except.ok () : Outcome String Unit)
      ⟨closed, ⟨[], []⟩⟩ := ⟨rfl, rfl⟩
  rw [Calls, program_closeDocument]
  apply Program.Exec.step hclose
  apply Program.Exec.step hdelete
  apply Program.Exec.ret

/-- Opening `longImport` panics and poisons the mutex. -/
theorem calls_open_longImport {extractor : SymbolExtractor}
    (h : extractor.parser.Coherent sampleTreeSitter) :
  ∃ extractor', Calls sampleTreeSitter (indexedMain extractor)
    (.openDocument "b.js" longImport 1) (.error .panicked)
    { indexedMain extractor with
      docs := { openedMain extractor with extractor := extractor', poisoned := true } }
  := by
  have hlanguage : detectLanguage "b.js" = some "javascript" := by decide
  obtain ⟨hextract, -⟩ := SymbolExtractor.extractSymbols_eq_fresh h longImport "javascript"
  rw [extractFresh_longImport] at hextract
  rcases hresult : extractor.extractSymbols sampleTreeSitter longImport "javascript" with
    ⟨outcome, extractor'⟩
  rw [hresult] at hextract
  obtain rfl := hextract
  use extractor'
  rw [Calls, program_openDocument]
  have hopened : LspOp.Step sampleTreeSitter (.docsOpen "b.js" longImport 1)
      (indexedMain extractor) (Except.error .panicked : Outcome String ℕ)
      { indexedMain extractor with
        docs := { openedMain extractor with extractor := extractor', poisoned := true } } := by
    constructor
    · simp only [DocumentStore.open_, indexedMain, openedMain, Document.new, hlanguage,
        parseSymbols, hresult]
      rfl
    · rfl
  apply Program.Exec.step hopened
  apply Program.Exec.ret

end OrchestraRag
