import OrchestraRag.Lsp.Methods

/-!
# Failed calls

A call changes the documents first and then the index, with one statement for each row and
no transaction.  What a failed call leaves behind is `LeftBy`: the call on the document store
is not undone, and of the statements on the index those before the one that failed took
effect.
-/

namespace OrchestraRag

namespace LspStore

/-- The documents and the rows are the same. -/
def SameContents (s s' : LspStore) : Prop :=
  s'.docs.documents = s.docs.documents ∧ s'.index.tables = s.index.tables

/-- The replacement of the rows of a document stopped before its end. -/
def PartlyReplaced (s s' : LspStore) (path : String) (symbols : List CodeSymbol) : Prop :=
  s'.index.tables = s.index.tables
    ∨ ∃ inserted missing, flatten path symbols = inserted ++ missing ∧ missing ≠ []
      ∧ s'.index.tables = deleteRows path s.index.tables ++ inserted

/-- What a failed call leaves. -/
def LeftBy (treeSitter : TreeSitter) (s : LspStore) : LspCall → LspStore → Prop
  | .openDocument path content version, s' =>
      let parsed := (parseSymbols treeSitter content (detectLanguage path) s.docs.extractor).1
      (s.SameContents s' ∧ (s.docs.poisoned = true ∨ parsed.Panicked))
        ∨ s.docs.poisoned = false ∧ ∃ doc, doc.path = path ∧ doc.content = content
          ∧ doc.version = version ∧ parsed = .ok doc.symbols
          ∧ s'.docs.documents = s.docs.documents.insert doc
          ∧ s.PartlyReplaced s' path doc.symbols
  | .updateDocument path content version, s' =>
      (s' = s ∧ (s.docs.poisoned = true ∨ s.docs.documents.get path = none))
        ∨ s.docs.poisoned = false ∧ ∃ old doc, s.docs.documents.get path = some old
          ∧ doc.path = path ∧ doc.content = content ∧ doc.version = version
          ∧ s'.docs.documents = s.docs.documents.insert doc
          ∧ let parsed := (parseSymbols treeSitter content old.language s.docs.extractor).1
            (parsed.Panicked ∧ doc.symbols = old.symbols ∧ s'.index = s.index)
              ∨ parsed = .ok doc.symbols ∧ s.PartlyReplaced s' path doc.symbols
  | .closeDocument path, s' =>
      (s.docs.poisoned = true → s' = s)
        ∧ ∀ path', path' ≠ path →
          s'.docs.documents.get path' = s.docs.documents.get path'
            ∧ rowsAt path' s'.index.tables = rowsAt path' s.index.tables
  | .buildIndex, s' =>
      s'.docs = s.docs
        ∧ (s'.index.tables = s.index.tables
          ∨ (s.docs.poisoned = true ∧ s'.index.tables = [])
          ∨ ∃ docs, docs.Perm s.docs.documents.values ∧ s'.index.tables <+: rowsOf docs)

end LspStore

section Calls

variable {treeSitter : TreeSitter} {s s' : LspStore} {e : Failure String}

theorem partlyReplaced_of_error {path : String} {symbols : List CodeSymbol}
    (h : SymbolIndex.replaceDocumentSymbols path symbols s.index = (.error e, s'.index)) :
  s.PartlyReplaced s' path symbols
  := by
  rcases SymbolIndex.replaceDocumentSymbols_cases path symbols s.index with
    ⟨db, hcall, -⟩ | ⟨message, db, hcall, htables⟩
  · rw [hcall] at h
    cases h
  · rw [hcall] at h
    obtain ⟨-, rfl⟩ := Prod.mk.inj h
    apply htables

theorem leftBy_openDocument {path content : String} {version : Int64}
    (h : Calls treeSitter s (.openDocument path content version) (.error e) s') :
  s.LeftBy treeSitter (.openDocument path content version) s'
  := by
  rcases calls_openDocument h with
    ⟨e', -, hdocs, hindex, hwhy⟩
      | ⟨doc, x, hpath, hcontent, hversion, hdocs, -, hreplace, hx, hbefore, hsymbols⟩
  · exact Or.inl ⟨⟨hdocs, congrArg Sql.Db.tables hindex⟩, hwhy⟩
  · rw [Outcome.error_of_map_eq hx] at hreplace
    apply Or.inr
    use hbefore, doc, hpath, hcontent, hversion, hsymbols, hdocs
    apply partlyReplaced_of_error hreplace

theorem leftBy_updateDocument {path content : String} {version : Int64}
    (h : Calls treeSitter s (.updateDocument path content version) (.error e) s') :
  s.LeftBy treeSitter (.updateDocument path content version) s'
  := by
  rcases calls_updateDocument h with ⟨e', -, hsame, hwhy⟩
    | ⟨e', old, doc, -, hold, hpath, hcontent, hversion, hsymbols, hdocs, -, hindex, hbefore,
      hpanicked⟩
    | ⟨old, doc, x, hold, hpath, hcontent, hversion, hdocs, -, hreplace, hx, hbefore, hsymbols⟩
  · exact Or.inl ⟨hsame, hwhy⟩
  · apply Or.inr
    use hbefore, old, doc, hold, hpath, hcontent, hversion, hdocs
    exact Or.inl ⟨hpanicked, hsymbols, hindex⟩
  · rw [Outcome.error_of_map_eq hx] at hreplace
    apply Or.inr
    use hbefore, old, doc, hold, hpath, hcontent, hversion, hdocs
    apply Or.inr
    use hsymbols
    apply partlyReplaced_of_error hreplace

theorem leftBy_closeDocument {path : String}
    (h : Calls treeSitter s (.closeDocument path) (.error e) s') :
  s.LeftBy treeSitter (.closeDocument path) s'
  := by
  constructor
  · intro hpoisoned
    rcases calls_closeDocument h with ⟨-, hsame, -⟩ | ⟨hsound, -⟩
    · apply hsame
    · rw [hpoisoned] at hsound
      cases hsound
  · intro path' hne
    constructor
    · apply get_of_calls_of_ne h rfl hne
    · apply rowsAt_of_calls_of_ne h rfl hne

theorem leftBy_buildIndex (h : Calls treeSitter s .buildIndex (.error e) s') :
  s.LeftBy treeSitter .buildIndex s'
  := by
  obtain ⟨hdocs, ⟨docs, -, -, hok, -⟩ | ⟨hpoisoned, -, htables⟩ | ⟨e', -, -, hrows⟩⟩ :=
    calls_buildIndex h
  · cases hok
  · exact ⟨hdocs, Or.inr (Or.inl ⟨hpoisoned, htables⟩)⟩
  · use hdocs
    rcases hrows with hrows | hrows
    · apply Or.inl hrows
    · apply Or.inr (Or.inr hrows)

/-- What a failed call leaves, whichever statement failed. -/
theorem leftBy_of_error {call : LspCall} (h : Calls treeSitter s call (.error e) s') :
  s.LeftBy treeSitter call s'
  := by
  cases call with
  | openDocument path content version => apply leftBy_openDocument h
  | updateDocument path content version => apply leftBy_updateDocument h
  | closeDocument path => apply leftBy_closeDocument h
  | buildIndex => apply leftBy_buildIndex h

end Calls

/-! ### A failed insertion -/

/-- The store before a call that deletes rows and fails to insert the first new one. -/
def failingInsert : LspStore :=
  .new ⟨[], [none, some "database or disk is full"]⟩

theorem calls_open_failingInsert :
  ∃ extractor, extractor.parser.Coherent sampleTreeSitter
    ∧ Calls sampleTreeSitter failingInsert (.openDocument "main.rs" mainSource 1)
      (.error (sqlFailure "replace_document_symbols" "database or disk is full"))
      ⟨openedMain extractor, ⟨[], []⟩⟩
  := calls_open_main rfl

theorem leftBy_open_failingInsert :
  ∃ s', Calls sampleTreeSitter failingInsert (.openDocument "main.rs" mainSource 1)
      (.error (sqlFailure "replace_document_symbols" "database or disk is full")) s'
    ∧ failingInsert.LeftBy sampleTreeSitter (.openDocument "main.rs" mainSource 1) s'
  := by
  obtain ⟨extractor, -, hopen⟩ := calls_open_failingInsert
  exact ⟨_, hopen, leftBy_of_error hopen⟩

/-- The call fails, and the document is open. -/
theorem not_sameContents_open_failingInsert :
  ∃ s', Calls sampleTreeSitter failingInsert (.openDocument "main.rs" mainSource 1)
      (.error (sqlFailure "replace_document_symbols" "database or disk is full")) s'
    ∧ failingInsert.docs.documents.get "main.rs" = none
    ∧ s'.docs.documents.get "main.rs" = some mainDocument
    ∧ ¬ failingInsert.SameContents s'
  := by
  obtain ⟨extractor, -, hopen⟩ := calls_open_failingInsert
  have hbefore : failingInsert.docs.documents.get "main.rs" = none := rfl
  have hafter := get_openedMain extractor
  use ⟨openedMain extractor, ⟨[], []⟩⟩, hopen, hbefore, hafter
  rintro ⟨hdocs, -⟩
  have hget := congrArg (Documents.get · "main.rs") hdocs
  simp only [hbefore, hafter] at hget
  cases hget

end OrchestraRag
