import Mathlib.Data.String.Basic
import OrchestraRag.Lsp.Resolution

/-!
# Definitions and references

`goto_definition` and `find_references` resolve the name at a line by the same query, and then
select the rows with that name by different orders.  What the first query finds is a row of the
document itself, so the definition is always in the document where it was asked for
(`definition_agrees`).
-/

namespace OrchestraRag

open Sql

/-! ### Orders -/

/-- `ORDER BY document_path, start_line` orders all rows. -/
theorem byPathAndLine_total (a b : LspRow) :
  byPathAndLine a b || byPathAndLine b a
  := by
  simp only [byPathAndLine, Bool.or_eq_true, decide_eq_true_eq]
  rcases lt_trichotomy a.documentPath b.documentPath with hlt | heq | hlt
  · apply Or.inl (Or.inl hlt)
  · rcases le_total a.startLine b.startLine with hle | hle
    · apply Or.inl (Or.inr ⟨heq, hle⟩)
    · apply Or.inr (Or.inr ⟨heq.symm, hle⟩)
  · apply Or.inr (Or.inl hlt)

theorem byPathAndLine_trans (a b c : LspRow) (hab : byPathAndLine a b) (hbc : byPathAndLine b c) :
  byPathAndLine a c
  := by
  simp only [byPathAndLine, decide_eq_true_eq] at *
  rcases hab with hab | ⟨hab, hle⟩
  · rcases hbc with hbc | ⟨hbc, -⟩
    · apply Or.inl (hab.trans hbc)
    · rw [hbc] at hab
      apply Or.inl hab
  · rw [hab]
    rcases hbc with hbc | ⟨hbc, hle'⟩
    · apply Or.inl hbc
    · apply Or.inr ⟨hbc, hle.trans hle'⟩

theorem byOwnPathAndLine_total (path : String) (a b : LspRow) :
  byOwnPathAndLine path a b || byOwnPathAndLine path b a
  := by
  simp only [byOwnPathAndLine, Bool.or_eq_true, decide_eq_true_eq]
  omega

theorem byOwnPathAndLine_trans (path : String) (a b c : LspRow) (hab : byOwnPathAndLine path a b)
    (hbc : byOwnPathAndLine path b c) :
  byOwnPathAndLine path a c
  := by
  simp only [byOwnPathAndLine, decide_eq_true_eq] at *
  omega

/-- A row that is not after a row of the document is one of the document, and starts no
later. -/
theorem of_byOwnPathAndLine {path : String} {a b : LspRow} (h : byOwnPathAndLine path a b)
    (hb : b.documentPath = path) :
  a.documentPath = path ∧ a.startLine ≤ b.startLine
  := by
  simp only [byOwnPathAndLine, decide_eq_true_eq, if_pos hb] at h
  split at h
  case isTrue ha =>
    use ha
    omega
  case isFalse ha => omega

/-! ### The name at a line -/

/-- The row covers a line. -/
def LspRow.Covers (row : LspRow) (line : UInt32) : Prop :=
  row.startLine ≤ line.toNat ∧ line.toNat ≤ row.endLine

instance (row : LspRow) (line : UInt32) : Decidable (row.Covers line) :=
  inferInstanceAs (Decidable (_ ∧ _))

namespace SymbolIndex

/-- The row of a document whose name is resolved at a line. -/
def rowAt (scan : Scan LspRow) (path : String) (line : UInt32) (rows : List LspRow) :
    Option LspRow :=
  (scan.orderBy byExtent ((rowsAt path rows).filter (fun row => row.Covers line))).head?

theorem nameAt_eq (scan : Scan LspRow) (path : String) (line : UInt32) (rows : List LspRow) :
  nameAt scan path line rows = (rowAt scan path line rows).map LspRow.name
  := rfl

variable {scan scan' : Scan LspRow} {path : String} {line : UInt32} {rows : List LspRow}

theorem of_rowAt {row : LspRow} (h : rowAt scan path line rows = some row) :
  row ∈ rows ∧ row.documentPath = path ∧ row.Covers line
  := by
  have hmem := Scan.mem_orderBy.mp (List.mem_of_head? h)
  obtain ⟨hrow, hcovers⟩ := List.mem_filter.mp hmem
  obtain ⟨hrow, hpath⟩ := mem_rowsAt.mp hrow
  exact ⟨hrow, hpath, of_decide_eq_true hcovers⟩

/-- No name is resolved exactly when no row of the document covers the line. -/
theorem nameAt_eq_none :
  nameAt scan path line rows = none ↔ ∀ row ∈ rows, row.documentPath = path → ¬ row.Covers line
  := by
  rw [nameAt_eq, Option.map_eq_none_iff, rowAt, List.head?_eq_none_iff,
    List.eq_nil_iff_forall_not_mem]
  simp only [Scan.mem_orderBy, List.mem_filter, mem_rowsAt, decide_eq_true_eq, not_and, and_imp]

/-! ### Answers -/

/-- What the definition query selects. -/
def definitionOf (scan : Scan LspRow) (path name : String) (rows : List LspRow) : Option LspRow :=
  (scan.orderBy (byOwnPathAndLine path) (rows.filter (fun row => row.name = name))).head?

/-- What the reference query selects. -/
def referencesOf (scan : Scan LspRow) (name : String) (rows : List LspRow) : List LspRow :=
  scan.orderBy byPathAndLine (rows.filter (fun row => row.name = name))

variable {db : LspDb}

theorem gotoDefinition_eq (h : db.Reliable) (col : UInt32) :
  gotoDefinition scan path line col db
    = (.ok ((nameAt scan path line db.tables).bind (fun name =>
        (definitionOf scan path name db.tables).map LspRow.location)), db)
  := by
  have hquery := Connection.query_on_ok (f := nameAt scan path line) h.nextFault
  rw [h.after_self] at hquery
  rw [gotoDefinition, withConnection_eq_ok, Connection.bind_on_ok hquery]
  cases nameAt scan path line db.tables with
  | none => rfl
  | some name =>
      apply Eq.trans (Connection.query_on_ok h.nextFault)
      rw [h.after_self]
      rfl

theorem findReferences_eq (h : db.Reliable) (col : UInt32) :
  findReferences scan path line col db
    = (.ok (((nameAt scan path line db.tables).map (fun name =>
        referencesOf scan name db.tables)).getD [] |>.map LspRow.location), db)
  := by
  have hquery := Connection.query_on_ok (f := nameAt scan path line) h.nextFault
  rw [h.after_self] at hquery
  rw [findReferences, withConnection_eq_ok, Connection.bind_on_ok hquery]
  cases nameAt scan path line db.tables with
  | none => rfl
  | some name =>
      apply Eq.trans (Connection.query_on_ok h.nextFault)
      rw [h.after_self]
      rfl

/-- The name that is resolved at a line has a definition, in the document itself. -/
theorem exists_definitionOf {name : String} (h : nameAt scan path line rows = some name) :
  ∃ row, definitionOf scan' path name rows = some row ∧ row ∈ rows ∧ row.name = name
    ∧ row.documentPath = path
    ∧ ∀ row' ∈ rows, row'.documentPath = path → row'.name = name → row.startLine ≤ row'.startLine
  := by
  rw [nameAt_eq] at h
  obtain ⟨own, hown, hname⟩ := Option.map_eq_some_iff.mp h
  obtain ⟨hmem, hpath, -⟩ := of_rowAt hown
  have hselected {row' : LspRow} (hrow' : row' ∈ rows) (hname' : row'.name = name) :
      row' ∈ rows.filter (fun row => row.name = name) :=
    List.mem_filter.mpr ⟨hrow', decide_eq_true hname'⟩
  cases hrow : definitionOf scan' path name rows with
  | none =>
      rw [definitionOf, List.head?_eq_none_iff] at hrow
      have hsorted := (scan'.perm_orderBy (byOwnPathAndLine path) _).mem_iff.mpr
        (hselected hmem hname)
      rw [hrow] at hsorted
      cases hsorted
  | some row =>
      have hleast := Scan.le_of_head?_orderBy (byOwnPathAndLine_trans path)
        (byOwnPathAndLine_total path) hrow
      obtain ⟨hrows, hrowname⟩ := List.mem_filter.mp
        (Scan.mem_orderBy.mp (List.mem_of_head? hrow))
      refine ⟨row, rfl, hrows, of_decide_eq_true hrowname, ?_, ?_⟩
      · apply (of_byOwnPathAndLine (hleast own (hselected hmem hname)) hpath).1
      · intro row' hrow' hpath' hname'
        apply (of_byOwnPathAndLine (hleast row' (hselected hrow' hname')) hpath').2

/-- `goto_definition` and `find_references`, when they resolve the same name at a line.  There is
no definition exactly when there are no references, which is when no row of the document covers
the line.  A definition is a reference in the document itself, of a row that starts no later than
any other with its name there, and the references are all rows with that name, in order. -/
theorem definition_agrees {scan scan' : Scan LspRow} {path : String} {line : UInt32}
    (col col' : UInt32) {db : LspDb} (h : db.Reliable)
    (hname : nameAt scan path line db.tables = nameAt scan' path line db.tables) :
  ∃ (definition : Option SymbolLocation) (references : List SymbolLocation),
    gotoDefinition scan path line col db = (.ok definition, db)
    ∧ findReferences scan' path line col' db = (.ok references, db)
    ∧ (definition = none ↔ references = [])
    ∧ (references = [] ↔ ∀ row ∈ db.tables, row.documentPath = path → ¬ row.Covers line)
    ∧ ∀ location, definition = some location → location ∈ references ∧ location.path = path
      ∧ ∃ row ∈ db.tables, location = row.location
        ∧ (∀ row' ∈ db.tables, row'.documentPath = path → row'.name = row.name →
          row.startLine ≤ row'.startLine)
        ∧ ∃ ordered : List LspRow, references = ordered.map LspRow.location
          ∧ ordered.Perm (db.tables.filter (fun row' => row'.name = row.name))
          ∧ ordered.Pairwise (fun a b => byPathAndLine a b)
  := by
  refine ⟨_, _, gotoDefinition_eq h col, findReferences_eq h col', ?_⟩
  have huncovered := @nameAt_eq_none scan path line db.tables
  rw [← hname, ← huncovered]
  cases hresolved : nameAt scan path line db.tables with
  | none => simp
  | some name =>
      obtain ⟨row, hdefinition, hmem, hrowname, hpath, hfirst⟩ :=
        @exists_definitionOf scan scan path line db.tables name hresolved
      have hreference : row ∈ referencesOf scan' name db.tables :=
        Scan.mem_orderBy.mpr (List.mem_filter.mpr ⟨hmem, decide_eq_true hrowname⟩)
      have hnonempty := List.ne_nil_of_mem (List.mem_map_of_mem (f := LspRow.location) hreference)
      simp only [Option.bind_some, Option.map_some, Option.getD_some, hdefinition]
      refine ⟨by simp [hnonempty], by simp [hnonempty], ?_⟩
      intro location hlocation
      obtain rfl := Option.some.inj hlocation
      use List.mem_map_of_mem hreference, hpath, row, hmem, rfl
      rw [hrowname]
      use hfirst, referencesOf scan' name db.tables, rfl, Scan.perm_orderBy _ _ _
      apply Scan.pairwise_orderBy byPathAndLine_trans byPathAndLine_total

/-- Two documents with a symbol of the same name. -/
def twoMains : LspDb :=
  ⟨[.new "a.rs" "main" .function ⟨0, 0, 2, 1⟩, .new "b.rs" "main" .function ⟨4, 0, 6, 1⟩], []⟩

theorem definition_agrees_twoMains :
  ∃ (definition : Option SymbolLocation) (references : List SymbolLocation),
    gotoDefinition Scan.inserted "b.rs" 5 0 twoMains = (.ok definition, twoMains)
    ∧ findReferences Scan.inserted "b.rs" 5 7 twoMains = (.ok references, twoMains)
    ∧ (definition = none ↔ references = [])
  := by
  obtain ⟨definition, references, hdefinition, hreferences, hagree, -⟩ :=
    @definition_agrees Scan.inserted Scan.inserted "b.rs" 5 0 7 twoMains rfl rfl
  exact ⟨definition, references, hdefinition, hreferences, hagree⟩

end SymbolIndex

end OrchestraRag
