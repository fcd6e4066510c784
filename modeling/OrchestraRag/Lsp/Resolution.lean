import Mathlib.Algebra.Group.Int.Defs
import OrchestraRag.Library.Sql
import OrchestraRag.Parser.Symbols

/-!
# The symbol index

The table `lsp_symbols` holds a row for every symbol of a document, nested ones included:
the `flatten`ing of its symbols.  The random id of a row is left out.  Replacing the
symbols of a document deletes its rows and inserts the new ones one by one, each a
statement that may fail.
-/

namespace OrchestraRag

open Sql

/-- A row of `lsp_symbols`. -/
structure LspRow where
  documentPath : String
  name : String
  kind : String
  startLine : ℤ
  startCol : ℤ
  endLine : ℤ
  endCol : ℤ
  deriving DecidableEq

/-- The cast `n as u32`. -/
def asU32 (n : ℤ) : UInt32 :=
  UInt32.ofNat (n % 2 ^ 32).toNat

def LspRow.new (path name : String) (kind : SymbolKind) (range : TextRange) : LspRow where
  documentPath := path
  name := name
  kind := kind.toString
  startLine := asI64 range.startLine
  startCol := asI64 range.startColumn
  endLine := asI64 range.endLine
  endCol := asI64 range.endColumn

/-- A resolved symbol location. -/
structure SymbolLocation where
  path : String
  line : UInt32
  col : UInt32
  name : String
  kind : String
  deriving DecidableEq

abbrev LspDb := Db (List LspRow)

/-! ### Rows of a document -/

mutual

/-- The rows of a symbol and of the symbols nested in it. -/
def flattenSymbol (path : String) : CodeSymbol → List LspRow
  | .mk name kind range _ children => .new path name kind range :: flatten path children

/-- The rows of the symbols of a document. -/
def flatten (path : String) : List CodeSymbol → List LspRow
  | [] => []
  | sym :: symbols => flattenSymbol path sym ++ flatten path symbols

end

/-- The rows of a table that belong to a document. -/
def rowsAt (path : String) (rows : List LspRow) : List LspRow :=
  rows.filter (fun row => row.documentPath = path)

@[simp]
theorem rowsAt_nil (path : String) :
  rowsAt path [] = []
  := rfl

@[simp]
theorem rowsAt_append (path : String) (xs ys : List LspRow) :
  rowsAt path (xs ++ ys) = rowsAt path xs ++ rowsAt path ys
  := List.filter_append _ _

theorem mem_rowsAt {path : String} {rows : List LspRow} {row : LspRow} :
  row ∈ rowsAt path rows ↔ row ∈ rows ∧ row.documentPath = path
  := by
  simp [rowsAt]

theorem rowsAt_eq_self {path : String} {rows : List LspRow}
    (h : ∀ row ∈ rows, row.documentPath = path) :
  rowsAt path rows = rows
  := by
  apply List.filter_eq_self.mpr
  intro row hrow
  simp [h row hrow]

theorem rowsAt_eq_nil {path : String} {rows : List LspRow}
    (h : ∀ row ∈ rows, row.documentPath ≠ path) :
  rowsAt path rows = []
  := by
  apply List.filter_eq_nil_iff.mpr
  intro row hrow
  simp [h row hrow]

mutual

theorem documentPath_of_mem_flattenSymbol {path : String} {row : LspRow} :
  ∀ {sym : CodeSymbol}, row ∈ flattenSymbol path sym → row.documentPath = path
  | .mk name kind range detail children, h => by
      rw [flattenSymbol] at h
      rcases List.mem_cons.mp h with rfl | h
      · rfl
      · apply documentPath_of_mem_flatten h

theorem documentPath_of_mem_flatten {path : String} {row : LspRow} :
  ∀ {symbols : List CodeSymbol}, row ∈ flatten path symbols → row.documentPath = path
  | [], h => by cases h
  | sym :: symbols, h => by
      rw [flatten] at h
      rcases List.mem_append.mp h with h | h
      · apply documentPath_of_mem_flattenSymbol h
      · apply documentPath_of_mem_flatten h

end

@[simp]
theorem rowsAt_flatten_self (path : String) (symbols : List CodeSymbol) :
  rowsAt path (flatten path symbols) = flatten path symbols
  := rowsAt_eq_self (fun _ h => documentPath_of_mem_flatten h)

theorem rowsAt_flatten_of_ne {path path' : String} (h : path' ≠ path)
    (symbols : List CodeSymbol) :
  rowsAt path' (flatten path symbols) = []
  := by
  apply rowsAt_eq_nil
  intro row hrow
  rw [documentPath_of_mem_flatten hrow]
  apply h.symm

/-! ### Statements -/

/-- `DELETE FROM lsp_symbols WHERE document_path = ?1`. -/
def deleteRows (path : String) (rows : List LspRow) : List LspRow :=
  rows.filter (fun row => row.documentPath ≠ path)

@[simp]
theorem rowsAt_deleteRows_self (path : String) (rows : List LspRow) :
  rowsAt path (deleteRows path rows) = []
  := by
  apply rowsAt_eq_nil
  intro row hrow
  simpa [deleteRows] using (List.mem_filter.mp hrow).2

theorem rowsAt_deleteRows_of_ne {path path' : String} (h : path' ≠ path) (rows : List LspRow) :
  rowsAt path' (deleteRows path rows) = rowsAt path' rows
  := by
  rw [rowsAt, deleteRows, List.filter_filter]
  apply List.filter_congr
  intro row _
  by_cases hrow : row.documentPath = path'
  · simp [hrow, h]
  · simp [hrow]

mutual

def insertSymbol (path : String) : CodeSymbol → Connection (List LspRow) ℕ
  | .mk name kind range _ children => do
      Connection.execute (· ++ [LspRow.new path name kind range])
      let count ← insertSymbolsRecursive path children
      pure (1 + count)

/-- Insert symbols and their children; returns the number of rows inserted. -/
def insertSymbolsRecursive (path : String) : List CodeSymbol → Connection (List LspRow) ℕ
  | [] => pure 0
  | sym :: symbols => do
      let count ← insertSymbol path sym
      let rest ← insertSymbolsRecursive path symbols
      pure (count + rest)

end

/-- The error of a failed call on the index. -/
def sqlFailure (call message : String) : Failure String :=
  .err (call ++ " failed: SQLite error: " ++ message)

/-- Run statements for a call on the index. -/
def withConnection {α : Type} (call : String) (c : Connection (List LspRow) α) (db : LspDb) :
    Outcome String α × LspDb :=
  match c.on db with
  | (.ok a, db) => (.ok a, db)
  | (.error message, db) => (.error (sqlFailure call message), db)

theorem withConnection_eq_ok {α : Type} {call : String} {c : Connection (List LspRow) α}
    {db db' : LspDb} {a : α} :
  withConnection call c db = (.ok a, db') ↔ c.on db = (.ok a, db')
  := by
  rw [withConnection]
  rcases c.on db with ⟨e | a', db''⟩
  · simp
  · simp

namespace SymbolIndex

/-- Replace all symbols of a document in the index. -/
def replaceDocumentSymbols (path : String) (symbols : List CodeSymbol) (db : LspDb) :
    Outcome String ℕ × LspDb :=
  withConnection "replace_document_symbols" (do
    Connection.execute (deleteRows path)
    insertSymbolsRecursive path symbols) db

/-- Remove all symbols of a document from the index. -/
def removeDocument (path : String) (db : LspDb) : Outcome String Unit × LspDb :=
  withConnection "remove_document" (Connection.execute (deleteRows path)) db

/-- Clear all symbols from the index. -/
def clear (db : LspDb) : Outcome String Unit × LspDb :=
  withConnection "clear" (Connection.execute (fun _ => [])) db

end SymbolIndex

/-! ### What the statements leave -/

mutual

theorem insertSymbol_eq (path : String) :
  ∀ sym, insertSymbol path sym = do
    insertAll (flattenSymbol path sym)
    pure (flattenSymbol path sym).length
  | .mk name kind range detail children => by
      rw [insertSymbol, flattenSymbol, insertSymbolsRecursive_eq path children, insertAll]
      simp [Nat.add_comm]

/-- Inserting symbols inserts the rows of their flattening, one by one. -/
theorem insertSymbolsRecursive_eq (path : String) :
  ∀ symbols, insertSymbolsRecursive path symbols = do
    insertAll (flatten path symbols)
    pure (flatten path symbols).length
  | [] => rfl
  | sym :: symbols => by
      rw [insertSymbolsRecursive, flatten, insertSymbol_eq path sym,
        insertSymbolsRecursive_eq path symbols, insertAll_append]
      simp

end

namespace SymbolIndex

/-- Replacing the symbols of a document succeeds and leaves exactly their rows for it, or
fails and leaves the table as it was or with a proper prefix of those rows. -/
theorem replaceDocumentSymbols_cases (path : String) (symbols : List CodeSymbol) (db : LspDb) :
  (∃ db', replaceDocumentSymbols path symbols db = (.ok (flatten path symbols).length, db')
      ∧ db'.tables = deleteRows path db.tables ++ flatten path symbols)
    ∨ ∃ e db', replaceDocumentSymbols path symbols db
        = (.error (sqlFailure "replace_document_symbols" e), db')
      ∧ (db'.tables = db.tables
        ∨ ∃ inserted missing, flatten path symbols = inserted ++ missing ∧ missing ≠ []
          ∧ db'.tables = deleteRows path db.tables ++ inserted)
  := by
  rw [replaceDocumentSymbols, withConnection, insertSymbolsRecursive_eq]
  cases hfault : db.nextFault with
  | some e =>
      have hdelete := Connection.execute_on_error (f := deleteRows path) hfault
      rw [Connection.bind_on_error hdelete]
      apply Or.inr
      exact ⟨e, _, rfl, Or.inl rfl⟩
  | none =>
      have hdelete := Connection.execute_on_ok (f := deleteRows path) hfault
      rw [Connection.bind_on_ok hdelete]
      rcases insertAll_on (flatten path symbols) (db.after (deleteRows path db.tables)) with
        ⟨db', hinsert, htables⟩ | ⟨e, db', inserted, missing, hinsert, hsplit, hmissing, htables⟩
      · rw [Connection.bind_on_ok hinsert]
        apply Or.inl
        exact ⟨db', rfl, htables⟩
      · rw [Connection.bind_on_error hinsert]
        apply Or.inr
        exact ⟨e, db', rfl, Or.inr ⟨inserted, missing, hsplit, hmissing, htables⟩⟩

theorem replaceDocumentSymbols_reliable (path : String) (symbols : List CodeSymbol) {db : LspDb}
    (h : db.Reliable) :
  ∃ db', replaceDocumentSymbols path symbols db = (.ok (flatten path symbols).length, db')
    ∧ db'.Reliable ∧ db'.tables = deleteRows path db.tables ++ flatten path symbols
  := by
  have hdelete := Connection.execute_on_ok (f := deleteRows path) h.nextFault
  obtain ⟨db', hinsert, hreliable, htables⟩ :=
    insertAll_on_reliable (flatten path symbols) (h.after (deleteRows path db.tables))
  use db'
  rw [replaceDocumentSymbols, withConnection, insertSymbolsRecursive_eq,
    Connection.bind_on_ok hdelete, Connection.bind_on_ok hinsert]
  exact ⟨rfl, hreliable, htables⟩

theorem reliable_of_replaceDocumentSymbols {path : String} {symbols : List CodeSymbol}
    {db db' : LspDb} {x : Outcome String ℕ} (h : db.Reliable)
    (hreplace : replaceDocumentSymbols path symbols db = (x, db')) :
  x = .ok (flatten path symbols).length ∧ db'.Reliable
  := by
  obtain ⟨db₁, hok, hreliable, -⟩ := replaceDocumentSymbols_reliable path symbols h
  rw [hok] at hreplace
  cases hreplace
  exact ⟨rfl, hreliable⟩

/-- Indexing a document that has no rows appends its rows, or fails and appends the first of
them. -/
theorem replaceDocumentSymbols_new {path : String} (symbols : List CodeSymbol) {db : LspDb}
    (hnew : ∀ row ∈ db.tables, row.documentPath ≠ path) :
  (∃ db', replaceDocumentSymbols path symbols db = (.ok (flatten path symbols).length, db')
      ∧ db'.tables = db.tables ++ flatten path symbols)
    ∨ ∃ e db' rows, replaceDocumentSymbols path symbols db = (.error e, db')
      ∧ rows <+: flatten path symbols ∧ db'.tables = db.tables ++ rows
  := by
  have hdelete : deleteRows path db.tables = db.tables := by
    apply List.filter_eq_self.mpr
    intro row hrow
    simp [hnew row hrow]
  rcases replaceDocumentSymbols_cases path symbols db with
    ⟨db', hcall, htables⟩ | ⟨e, db', hcall, htables⟩
  · rw [hdelete] at htables
    exact Or.inl ⟨db', hcall, htables⟩
  · apply Or.inr
    rw [hdelete] at htables
    rcases htables with htables | ⟨inserted, missing, hsplit, -, htables⟩
    · rw [← List.append_nil db.tables] at htables
      exact ⟨_, db', [], hcall, List.nil_prefix, htables⟩
    · use sqlFailure "replace_document_symbols" e, db', inserted, hcall
      rw [hsplit]
      exact ⟨List.prefix_append _ _, htables⟩

theorem removeDocument_ok {path : String} {db : LspDb} (h : db.nextFault = none) :
  removeDocument path db = (.ok (), db.after (deleteRows path db.tables))
  := by
  rw [removeDocument, withConnection, Connection.execute_on_ok h]

theorem removeDocument_error {path e : String} {db : LspDb} (h : db.nextFault = some e) :
  removeDocument path db = (.error (sqlFailure "remove_document" e), db.after db.tables)
  := by
  rw [removeDocument, withConnection, Connection.execute_on_error h]

theorem clear_ok {db : LspDb} (h : db.nextFault = none) :
  clear db = (.ok (), db.after [])
  := by
  rw [clear, withConnection, Connection.execute_on_ok h]

theorem clear_error {e : String} {db : LspDb} (h : db.nextFault = some e) :
  clear db = (.error (sqlFailure "clear" e), db.after db.tables)
  := by
  rw [clear, withConnection, Connection.execute_on_error h]

end SymbolIndex

/-! ### Queries -/

/-- The location of a row. -/
def LspRow.location (row : LspRow) : SymbolLocation where
  path := row.documentPath
  line := asU32 row.startLine
  col := asU32 row.startCol
  name := row.name
  kind := row.kind

/-- `ORDER BY document_path, start_line`. -/
def byPathAndLine (a b : LspRow) : Bool :=
  a.documentPath < b.documentPath
    ∨ (a.documentPath = b.documentPath ∧ a.startLine ≤ b.startLine)

/-- `ORDER BY (end_line - start_line)`. -/
def byExtent (a b : LspRow) : Bool :=
  a.endLine - a.startLine ≤ b.endLine - b.startLine

/-- `ORDER BY CASE WHEN document_path = ?2 THEN 0 ELSE 1 END, start_line`. -/
def byOwnPathAndLine (path : String) (a b : LspRow) : Bool :=
  let rank (row : LspRow) : ℕ := if row.documentPath = path then 0 else 1
  rank a < rank b ∨ (rank a = rank b ∧ a.startLine ≤ b.startLine)

namespace SymbolIndex

variable (scan : Scan LspRow)

/-- The name of the symbol at a line of a document, the one that spans the fewest lines. -/
def nameAt (path : String) (line : UInt32) (rows : List LspRow) : Option String :=
  let line : ℤ := line.toNat
  let covering := (rowsAt path rows).filter (fun row =>
    row.startLine ≤ line ∧ line ≤ row.endLine)
  ((scan.orderBy byExtent covering).head?).map LspRow.name

/-- Find the definition location for the symbol at a line of a document. -/
def gotoDefinition (path : String) (line _col : UInt32) (db : LspDb) :
    Outcome String (Option SymbolLocation) × LspDb :=
  withConnection "goto_definition" (do
    match ← Connection.query (nameAt scan path line) with
    | none => pure none
    | some name =>
        Connection.query fun rows =>
          ((scan.orderBy (byOwnPathAndLine path)
            (rows.filter (fun row => row.name = name))).head?).map LspRow.location) db

/-- Find all reference locations for the symbol at a line of a document. -/
def findReferences (path : String) (line _col : UInt32) (db : LspDb) :
    Outcome String (List SymbolLocation) × LspDb :=
  withConnection "find_references" (do
    match ← Connection.query (nameAt scan path line) with
    | none => pure []
    | some name =>
        Connection.query fun rows =>
          (scan.orderBy byPathAndLine (rows.filter (fun row => row.name = name))).map
            LspRow.location) db

/-- Search for symbols across all indexed documents matching `query`; a pattern that is too
long fails on the first row. -/
def searchSymbols (query : String) (db : LspDb) : Outcome String (List SymbolLocation) × LspDb :=
  let pattern := "%" ++ query ++ "%"
  withConnection "search_symbols" (do
    let found ← Connection.query fun rows =>
      if maxLikePatternLength < pattern.utf8ByteSize ∧ rows ≠ [] then none
      else some ((scan.orderBy byPathAndLine
        (rows.filter (fun row => like pattern row.name))).take 100)
    match found with
    | none => throw patternTooComplex
    | some rows => pure (rows.map LspRow.location)) db

variable {scan}

/-- A definition that is found is the place of a row of the index. -/
theorem gotoDefinition_mem {path : String} {line col : UInt32} {db db' : LspDb}
    {location : SymbolLocation}
    (h : gotoDefinition scan path line col db = (.ok (some location), db')) :
  ∃ row ∈ db.tables, location = row.location
  := by
  rw [gotoDefinition, withConnection_eq_ok, Connection.bind_on_eq_ok] at h
  obtain ⟨name, db₁, hname, h⟩ := h
  obtain ⟨-, htables⟩ := Connection.query_on_eq_ok hname
  cases name with
  | none => cases h
  | some name =>
      obtain ⟨hlocation, -⟩ := Connection.query_on_eq_ok h
      obtain ⟨row, hhead, rfl⟩ := Option.map_eq_some_iff.mp hlocation.symm
      have hrow := Scan.mem_orderBy.mp (List.mem_of_mem_head? hhead)
      rw [htables] at hrow
      exact ⟨row, (List.mem_filter.mp hrow).1, rfl⟩

/-- Every reference that is found is the place of a row of the index. -/
theorem findReferences_mem {path : String} {line col : UInt32} {db db' : LspDb}
    {locations : List SymbolLocation}
    (h : findReferences scan path line col db = (.ok locations, db')) :
  ∀ location ∈ locations, ∃ row ∈ db.tables, location = row.location
  := by
  rw [findReferences, withConnection_eq_ok, Connection.bind_on_eq_ok] at h
  obtain ⟨name, db₁, hname, h⟩ := h
  obtain ⟨-, htables⟩ := Connection.query_on_eq_ok hname
  intro location hmem
  cases name with
  | none =>
      cases h
      cases hmem
  | some name =>
      obtain ⟨rfl, -⟩ := Connection.query_on_eq_ok h
      obtain ⟨row, hrow, rfl⟩ := List.mem_map.mp hmem
      rw [Scan.mem_orderBy, htables] at hrow
      exact ⟨row, (List.mem_filter.mp hrow).1, rfl⟩

/-- Every symbol that is found is the place of a row of the index. -/
theorem searchSymbols_mem {query : String} {db db' : LspDb} {locations : List SymbolLocation}
    (h : searchSymbols scan query db = (.ok locations, db')) :
  ∀ location ∈ locations, ∃ row ∈ db.tables, location = row.location
  := by
  rw [searchSymbols, withConnection_eq_ok, Connection.bind_on_eq_ok] at h
  obtain ⟨found, db₁, hfound, h⟩ := h
  obtain ⟨hrows, -⟩ := Connection.query_on_eq_ok hfound
  intro location hmem
  cases found with
  | none => cases h
  | some rows =>
      cases h
      obtain ⟨row, hrow, rfl⟩ := List.mem_map.mp hmem
      split at hrows
      · cases hrows
      · cases hrows
        have hsorted := Scan.mem_orderBy.mp (List.mem_of_mem_take hrow)
        exact ⟨row, (List.mem_filter.mp hsorted).1, rfl⟩

end SymbolIndex

end OrchestraRag
