import Mathlib.Data.Prod.Lex
import OrchestraRag.Lsp.Definition
import OrchestraRag.Lsp.Hover

/-!
# Columns

Hover and the symbol index are asked for a line and a column, and neither looks at the column:
hover answers for the first smallest survivor of the line, `goto_definition` and
`find_references` for a row of least extent that covers the line.  So they answer for a symbol
under the cursor exactly when the lines alone lead to one (`atColumn_iff`).
-/

namespace OrchestraRag

open Sql

/-- The range contains a position, both ends included. -/
def TextRange.Contains (range : TextRange) (line col : ℕ) : Prop :=
  toLex (range.startLine, range.startColumn) ≤ toLex (line, col)
    ∧ toLex (line, col) ≤ toLex (range.endLine, range.endColumn)

instance (range : TextRange) (line col : ℕ) : Decidable (range.Contains line col) :=
  inferInstanceAs (Decidable (_ ∧ _))

theorem TextRange.Contains.covers {sym : CodeSymbol} {line col : ℕ}
    (h : sym.range.Contains line col) :
  sym.Covers line
  := by
  obtain ⟨hstart, hend⟩ := h
  rw [Prod.Lex.toLex_le_toLex] at hstart hend
  constructor
  · rcases hstart with hlt | ⟨heq, -⟩
    · apply hlt.le
    · apply heq.le
  · rcases hend with hlt | ⟨heq, -⟩
    · apply hlt.le
    · apply heq.le

/-- The range of the row contains a position, both ends included. -/
def LspRow.Contains (row : LspRow) (line col : UInt32) : Prop :=
  toLex (row.startLine, row.startCol) ≤ toLex ((line.toNat : ℤ), (col.toNat : ℤ))
    ∧ toLex ((line.toNat : ℤ), (col.toNat : ℤ)) ≤ toLex (row.endLine, row.endCol)

instance (row : LspRow) (line col : UInt32) : Decidable (row.Contains line col) :=
  inferInstanceAs (Decidable (_ ∧ _))

/-! ### Hover -/

/-- Hover answers for a symbol under the cursor, and not at all when there is none. -/
structure HoverAtColumn (symbols : List CodeSymbol) (content : String) (line col : UInt32) :
    Prop where
  contains : ∀ sym, findSymbolAt symbols line.toNat col.toNat = some sym →
    sym.range.Contains line.toNat col.toNat
  eq_none : (∀ sym : CodeSymbol, sym.Occurs symbols → ¬ sym.range.Contains line.toNat col.toNat) →
    hoverAt symbols content line col = none

theorem hoverAtColumn_iff {symbols : List CodeSymbol} {content : String} {line col : UInt32} :
  HoverAtColumn symbols content line col ↔
    (∀ sym ∈ symbols, ¬ sym.Covers line.toNat)
      ∨ ∃ before sym after, survivors line.toNat symbols = before ++ sym :: after
        ∧ (∀ other ∈ before, sym.lineSpan < other.lineSpan)
        ∧ (∀ other ∈ after, sym.lineSpan ≤ other.lineSpan)
        ∧ sym.range.Contains line.toNat col.toNat
  := by
  have hfound {sym : CodeSymbol} :
      findSymbolAt symbols line.toNat col.toNat = some sym
        ↔ ∃ before after, survivors line.toNat symbols = before ++ sym :: after
          ∧ (∀ other ∈ before, sym.lineSpan < other.lineSpan)
          ∧ ∀ other ∈ after, sym.lineSpan ≤ other.lineSpan := by
    rw [findSymbolAt_eq_argmin, argmin_eq_some_iff_append]
  constructor
  · intro h
    cases hsym : findSymbolAt symbols line.toNat col.toNat with
    | none => apply Or.inl (findAmong_eq_none.mp hsym).2
    | some sym =>
        obtain ⟨before, after, hsurvivors, hbefore, hafter⟩ := hfound.mp hsym
        apply Or.inr ⟨before, sym, after, hsurvivors, hbefore, hafter, h.contains sym hsym⟩
  · rintro (huncovered | ⟨before, sym, after, hsurvivors, hbefore, hafter, hcontains⟩)
    · have hnone : findSymbolAt symbols line.toNat col.toNat = none :=
        findAmong_eq_none.mpr ⟨rfl, huncovered⟩
      constructor
      · intro sym hsym
        rw [hnone] at hsym
        cases hsym
      · intro _
        rw [hoverAt, hnone]
        rfl
    · have hsym := hfound.mpr ⟨before, after, hsurvivors, hbefore, hafter⟩
      constructor
      · intro sym' hsym'
        obtain rfl := Option.some.inj (hsym.symm.trans hsym')
        apply hcontains
      · intro hnowhere
        have hmem : sym ∈ survivors line.toNat symbols := by
          rw [hsurvivors]
          apply List.mem_append_right before List.mem_cons_self
        apply absurd hcontains (hnowhere sym (mem_survivors_iff.mp hmem).occurs)

/-! ### The symbol index -/

namespace SymbolIndex

/-- However ties are broken, the name is that of a symbol under the cursor. -/
def ResolvesAtColumn (path : String) (line col : UInt32) (rows : List LspRow) : Prop :=
  ∀ scan row, rowAt scan path line rows = some row → row.Contains line col

/-- `goto_definition` resolves the name of a symbol under the cursor, and answers nothing when
there is none. -/
structure DefinitionAtColumn (path : String) (line col : UInt32) (db : LspDb) : Prop where
  resolves : ResolvesAtColumn path line col db.tables
  eq_none : (∀ row ∈ db.tables, row.documentPath = path → ¬ row.Contains line col) →
    ∀ scan, gotoDefinition scan path line col db = (.ok none, db)

/-- `find_references` resolves the name of a symbol under the cursor, and answers nothing when
there is none. -/
structure ReferencesAtColumn (path : String) (line col : UInt32) (db : LspDb) : Prop where
  resolves : ResolvesAtColumn path line col db.tables
  eq_nil : (∀ row ∈ db.tables, row.documentPath = path → ¬ row.Contains line col) →
    ∀ scan, findReferences scan path line col db = (.ok [], db)

/-- Of the rows that cover a line, those of least extent. -/
def LeastAt (path : String) (line : UInt32) (rows : List LspRow) (row : LspRow) : Prop :=
  (row ∈ rows ∧ row.documentPath = path ∧ row.Covers line)
    ∧ ∀ other ∈ rows, other.documentPath = path → other.Covers line →
      row.endLine - row.startLine ≤ other.endLine - other.startLine

section Rows

variable {path : String} {line col : UInt32} {rows : List LspRow}

theorem byExtent_total (a b : LspRow) :
  byExtent a b || byExtent b a
  := by
  simp only [byExtent, Bool.or_eq_true, decide_eq_true_eq]
  apply le_total

theorem byExtent_trans (a b c : LspRow) (hab : byExtent a b) (hbc : byExtent b c) :
  byExtent a c
  := by
  simp only [byExtent, decide_eq_true_eq] at *
  apply hab.trans hbc

theorem mem_coveringRows {row : LspRow} :
  row ∈ (rowsAt path rows).filter (fun row => row.Covers line)
    ↔ row ∈ rows ∧ row.documentPath = path ∧ row.Covers line
  := by
  rw [List.mem_filter, mem_rowsAt, decide_eq_true_eq, and_assoc]

/-- A least row is the first of its order in some order of the rows. -/
theorem rowAt_first {row : LspRow} (h : LeastAt path line rows row) :
  rowAt (Scan.first row) path line rows = some row
  := by
  have hmem := mem_coveringRows.mpr h.1
  obtain ⟨before, after, hsorted, -, hbefore⟩ := List.mergeSort_cons byExtent_trans byExtent_total
    row (((rowsAt path rows).filter (fun row => row.Covers line)).erase row)
  have hnil : before = [] := by
    apply List.eq_nil_iff_forall_not_mem.mpr
    intro other hother
    have hin : other ∈ row :: ((rowsAt path rows).filter (fun row => row.Covers line)).erase row :=
      List.mem_mergeSort.mp (hsorted ▸ List.mem_append_left _ hother)
    have hcovering := (List.perm_cons_erase hmem).mem_iff.mpr hin
    obtain ⟨hrow, hpath, hcovers⟩ := mem_coveringRows.mp hcovering
    have hle : byExtent row other := decide_eq_true (h.2 other hrow hpath hcovers)
    have hbehind := hbefore other hother
    rw [hle] at hbehind
    cases hbehind
  rw [rowAt, Scan.orderBy, Scan.first]
  simp only [if_pos hmem]
  rw [hsorted, hnil]
  rfl

/-- The names of a document are resolved to a symbol under the cursor exactly when all least rows
are under it. -/
theorem resolvesAtColumn_iff :
  ResolvesAtColumn path line col rows ↔ ∀ row, LeastAt path line rows row → row.Contains line col
  := by
  constructor
  · intro h row hleast
    apply h _ row (rowAt_first hleast)
  · intro h scan row hrow
    apply h row
    have hle := Scan.le_of_head?_orderBy byExtent_trans byExtent_total hrow
    use of_rowAt hrow
    intro other hother hpath hcovers
    apply of_decide_eq_true (hle other (mem_coveringRows.mpr ⟨hother, hpath, hcovers⟩))

/-- Without a symbol under the cursor no name is resolved. -/
theorem ResolvesAtColumn.nameAt_eq_none (h : ResolvesAtColumn path line col rows)
    (hnowhere : ∀ row ∈ rows, row.documentPath = path → ¬ row.Contains line col)
    (scan : Scan LspRow) :
  nameAt scan path line rows = none
  := by
  rw [nameAt_eq]
  cases hrow : rowAt scan path line rows with
  | none => rfl
  | some row =>
      obtain ⟨hmem, hpath, -⟩ := of_rowAt hrow
      apply absurd (h scan row hrow) (hnowhere row hmem hpath)

end Rows

/-- When hover, `goto_definition` and `find_references` answer for a symbol under the cursor.
Hover does so exactly when no symbol covers the line, or when the first smallest survivor of the
line is under the cursor; the other two when all least rows that cover the line are. -/
theorem atColumn_iff (symbols : List CodeSymbol) (content path : String) (line col : UInt32)
    {db : LspDb} (h : db.Reliable) :
  (HoverAtColumn symbols content line col ↔
    (∀ sym ∈ symbols, ¬ sym.Covers line.toNat)
      ∨ ∃ before sym after, survivors line.toNat symbols = before ++ sym :: after
        ∧ (∀ other ∈ before, sym.lineSpan < other.lineSpan)
        ∧ (∀ other ∈ after, sym.lineSpan ≤ other.lineSpan)
        ∧ sym.range.Contains line.toNat col.toNat)
  ∧ (DefinitionAtColumn path line col db ↔
    ∀ row, LeastAt path line db.tables row → row.Contains line col)
  ∧ (ReferencesAtColumn path line col db ↔
    ∀ row, LeastAt path line db.tables row → row.Contains line col)
  := by
  refine ⟨hoverAtColumn_iff, ?_, ?_⟩
  · rw [← resolvesAtColumn_iff]
    constructor
    · apply DefinitionAtColumn.resolves
    · intro hresolves
      use hresolves
      intro hnowhere scan
      rw [gotoDefinition_eq h, hresolves.nameAt_eq_none hnowhere]
      rfl
  · rw [← resolvesAtColumn_iff]
    constructor
    · apply ReferencesAtColumn.resolves
    · intro hresolves
      use hresolves
      intro hnowhere scan
      rw [findReferences_eq h, hresolves.nameAt_eq_none hnowhere]
      rfl

/-! ### Two functions on a line -/

/-- The functions of the line `fn a() {} fn b() {}`. -/
def twoFunctions : List CodeSymbol :=
  [.mk "a" .function ⟨0, 0, 0, 9⟩ (some "()") [], .mk "b" .function ⟨0, 10, 0, 19⟩ (some "()") []]

/-- The index after they were opened as `a.rs`. -/
def twoFunctionRows : LspDb :=
  ⟨flatten "a.rs" twoFunctions, []⟩

theorem atColumn_iff_twoFunctions :
  HoverAtColumn twoFunctions "fn a() {} fn b() {}" 0 3
    ∧ DefinitionAtColumn "a.rs" 7 3 twoFunctionRows
  := by
  have hreliable : twoFunctionRows.Reliable := rfl
  constructor
  · apply (atColumn_iff twoFunctions "fn a() {} fn b() {}" "a.rs" 0 3 hreliable).1.mpr
    apply Or.inr
    use [], .mk "a" .function ⟨0, 0, 0, 9⟩ (some "()") [],
      [.mk "b" .function ⟨0, 10, 0, 19⟩ (some "()") []], rfl
    decide
  · apply (atColumn_iff twoFunctions "fn a() {} fn b() {}" "a.rs" 7 3 hreliable).2.1.mpr
    rintro row ⟨⟨hmem, -, hcovers⟩, -⟩
    have hnone : ∀ row ∈ twoFunctionRows.tables, ¬ row.Covers 7 := by decide
    apply absurd hcovers (hnone row hmem)

/-- With the cursor on `b`, all three answer for `a`. -/
theorem not_atColumn_twoFunctions :
  ¬ HoverAtColumn twoFunctions "fn a() {} fn b() {}" 0 13
    ∧ ¬ DefinitionAtColumn "a.rs" 0 13 twoFunctionRows
    ∧ ¬ ReferencesAtColumn "a.rs" 0 13 twoFunctionRows
  := by
  have hrow : rowAt Scan.inserted "a.rs" 0 twoFunctionRows.tables
      = some (.new "a.rs" "a" .function ⟨0, 0, 0, 9⟩) := by
    have hcovering : (rowsAt "a.rs" twoFunctionRows.tables).filter (fun row => row.Covers 0)
        = twoFunctionRows.tables := by decide
    have hsorted : twoFunctionRows.tables.mergeSort byExtent = twoFunctionRows.tables :=
      List.mergeSort_of_pairwise (by decide)
    rw [rowAt, hcovering]
    exact congrArg List.head? hsorted
  have hresolves : ¬ ResolvesAtColumn "a.rs" 0 13 twoFunctionRows.tables := by
    intro h
    have hcontains := h Scan.inserted _ hrow
    revert hcontains
    decide
  refine ⟨?_, fun h => hresolves h.resolves, fun h => hresolves h.resolves⟩
  intro h
  have hcontains := h.contains (.mk "a" .function ⟨0, 0, 0, 9⟩ (some "()") []) rfl
  revert hcontains
  decide

end SymbolIndex

end OrchestraRag
