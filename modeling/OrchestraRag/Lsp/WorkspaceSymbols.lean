import Mathlib.Data.Bool.AllAny
import Mathlib.Data.List.Forall2
import OrchestraRag.Library.Like
import OrchestraRag.Lsp.Definition
import OrchestraRag.Lsp.Sequential
import OrchestraRag.Parser.Forest

/-!
# Workspace symbols

`workspace_symbols` searches the names of all symbols of the open documents, at any depth, for
those that a pattern around its query matches (`workspace_symbols_matches`).  Without characters
that are part of a pattern, these are the names that contain the query.
-/

namespace OrchestraRag

open Sql

/-! ### Open symbols -/

/-- A symbol of an open document. -/
structure OpenSymbol where
  path : String
  symbol : CodeSymbol

namespace OpenSymbol

def row (sym : OpenSymbol) : LspRow :=
  .new sym.path sym.symbol.name sym.symbol.kind sym.symbol.range

/-- Where the symbol starts, its line and column as `u32`. -/
def location (sym : OpenSymbol) : SymbolLocation where
  path := sym.path
  line := UInt32.ofNat sym.symbol.range.startLine
  col := UInt32.ofNat sym.symbol.range.startColumn
  name := sym.symbol.name
  kind := sym.symbol.kind.toString

theorem asU32_asI64 (n : ℕ) :
  asU32 (asI64 n) = UInt32.ofNat n
  := by
  have hmod : (asI64 n % 2 ^ 32).toNat = n % 2 ^ 32 := by
    rw [asI64_eq]
    split
    · omega
    · omega
  rw [asU32, hmod]
  apply UInt32.toNat_inj.mp
  rw [UInt32.toNat_ofNat', UInt32.toNat_ofNat', Nat.mod_mod]

theorem location_row (sym : OpenSymbol) :
  sym.row.location = sym.location
  := by
  rw [LspRow.location, row, LspRow.new, asU32_asI64, asU32_asI64]
  rfl

end OpenSymbol

mutual

theorem flattenSymbol_eq (path : String) :
  ∀ sym : CodeSymbol,
    flattenSymbol path sym = sym.subtree.map (fun sym => OpenSymbol.row ⟨path, sym⟩)
  | .mk name kind range detail children => by
      rw [flattenSymbol, CodeSymbol.subtree, flatten_eq path children, List.map_cons]
      rfl

/-- The index has a row for each symbol of a document, at any depth. -/
theorem flatten_eq (path : String) :
  ∀ symbols : List CodeSymbol,
    flatten path symbols = (everySymbol symbols).map (fun sym => OpenSymbol.row ⟨path, sym⟩)
  | [] => rfl
  | sym :: symbols => by
      rw [flatten, everySymbol, flattenSymbol_eq path sym, flatten_eq path symbols,
        List.map_append]

end

namespace LspStore

/-- The symbols of the open documents. -/
def openSymbols (s : LspStore) : List OpenSymbol :=
  s.docs.documents.values.flatMap (fun doc =>
    (everySymbol doc.symbols).map (fun sym => ⟨doc.path, sym⟩))

theorem allOpenRows_eq (s : LspStore) :
  s.allOpenRows = s.openSymbols.map OpenSymbol.row
  := by
  rw [allOpenRows, rowsOf, openSymbols, List.map_flatMap]
  apply List.flatMap_congr
  intro doc _
  rw [flatten_eq, List.map_map]
  rfl

/-- Search the symbols of all open documents. -/
def workspaceSymbols (scan : Scan LspRow) (query : String) (s : LspStore) :
    Outcome String (List SymbolLocation) × LspDb :=
  SymbolIndex.searchSymbols scan query s.index

end LspStore

/-! ### The search -/

namespace SymbolIndex

variable {scan : Scan LspRow} {query : String} {db : LspDb}

/-- What a search answers when no statement fails. -/
theorem searchSymbols_eq (h : db.Reliable) :
  searchSymbols scan query db
    = (if maxLikePatternLength < (around query).utf8ByteSize ∧ db.tables ≠ []
        then .error (sqlFailure "search_symbols" patternTooComplex)
        else .ok (((scan.orderBy byPathAndLine
          (db.tables.filter (fun row => like (around query) row.name))).take 100).map
            LspRow.location), db)
  := by
  have hquery := Connection.query_on_ok (f := fun rows : List LspRow =>
    if maxLikePatternLength < (around query).utf8ByteSize ∧ rows ≠ [] then none
    else some ((scan.orderBy byPathAndLine
      (rows.filter (fun row => like (around query) row.name))).take 100)) h.nextFault
  rw [h.after_self] at hquery
  rw [searchSymbols, ← around.eq_1, withConnection, Connection.bind_on_ok hquery]
  by_cases hfails : maxLikePatternLength < (around query).utf8ByteSize ∧ db.tables ≠ []
  · rw [if_pos hfails, if_pos hfails]
    rfl
  · rw [if_neg hfails, if_neg hfails]
    rfl

theorem searchSymbols_long (h : db.Reliable)
    (hlong : maxLikePatternLength < (around query).utf8ByteSize) (hrows : db.tables ≠ []) :
  searchSymbols scan query db = (.error (sqlFailure "search_symbols" patternTooComplex), db)
  := by
  rw [searchSymbols_eq h, if_pos ⟨hlong, hrows⟩]

theorem searchSymbols_short (h : db.Reliable)
    (hshort : maxLikePatternLength < (around query).utf8ByteSize → db.tables = []) :
  searchSymbols scan query db
    = (.ok (((scan.orderBy byPathAndLine
        (db.tables.filter (fun row => like (around query) row.name))).take 100).map
          LspRow.location), db)
  := by
  rw [searchSymbols_eq h, if_neg (fun hlong => hlong.2 (hshort hlong.1))]

end SymbolIndex

/-- Rows that are those of symbols, in some order, are the rows of the symbols in that order. -/
theorem exists_perm_map_row {symbols : List OpenSymbol} {rows : List LspRow}
    (h : rows.Perm (symbols.map OpenSymbol.row)) :
  ∃ sorted : List OpenSymbol, sorted.Perm symbols ∧ rows = sorted.map OpenSymbol.row
  := by
  have hrows : List.Forall₂ (fun row sym => row = OpenSymbol.row sym)
      (symbols.map OpenSymbol.row) symbols :=
    List.forall₂_map_left_iff.mpr (List.forall₂_same.mpr (fun _ _ => rfl))
  obtain ⟨sorted, hsorted, hperm⟩ := List.perm_comp_forall₂ h hrows
  use sorted, hperm
  have hmap := List.forall₂_map_right_iff.mpr hsorted
  rw [List.forall₂_eq_eq_eq] at hmap
  apply hmap

/-- The rows of symbols that a pattern matches are, in order, those of the symbols it matches. -/
theorem exists_sorted_symbols (scan : Scan LspRow) (pattern : String)
    {symbols : List OpenSymbol} {rows : List LspRow}
    (h : rows.Perm (symbols.map OpenSymbol.row)) :
  ∃ sorted : List OpenSymbol,
    scan.orderBy byPathAndLine (rows.filter (fun row => like pattern row.name))
      = sorted.map OpenSymbol.row
    ∧ sorted.Pairwise (fun a b => byPathAndLine a.row b.row)
    ∧ sorted.Perm (symbols.filter (fun sym => like pattern sym.symbol.name))
  := by
  have hmatching := (scan.perm_orderBy byPathAndLine _).trans
    (h.filter (fun row => like pattern row.name))
  rw [List.filter_map] at hmatching
  obtain ⟨sorted, hperm, hsorted⟩ := exists_perm_map_row hmatching
  use sorted, hsorted
  constructor
  · have hordered := scan.pairwise_orderBy byPathAndLine_trans byPathAndLine_total
      (rows.filter (fun row => like pattern row.name))
    rw [hsorted] at hordered
    exact List.pairwise_map.mp hordered
  · apply hperm

theorem LspStore.InStep.tables_perm {s : LspStore} (h : s.InStep) :
  s.index.tables.Perm (s.openSymbols.map OpenSymbol.row)
  := by
  rw [← LspStore.allOpenRows_eq]
  apply h.perm

/-- The index of a store in step is empty when no open document has a symbol. -/
theorem LspStore.InStep.tables_eq_nil_iff {s : LspStore} (h : s.InStep) :
  s.index.tables = [] ↔ s.openSymbols = []
  := by
  have hlength := h.tables_perm.length_eq
  rw [List.length_map] at hlength
  rw [← List.length_eq_zero_iff, hlength, List.length_eq_zero_iff]

section Search

variable (treeSitter : TreeSitter) (scan : Scan LspRow) {index : LspDb}

/-- Calls one after another keep the index in step when they do not rebuild it while the mutex of
the documents is poisoned. -/
theorem inStep_of_trace (hempty : index.tables = []) (hreliable : index.Reliable)
    {history : List (LspEvent × LspStore)}
    (h : Trace (CallStep treeSitter) (LspStore.new index) history)
    (hsound : Trace.Throughout (fun s e _ => SoundRebuild s e) (LspStore.new index) history) :
  (Trace.last (LspStore.new index) history).InStep
    ∧ (Trace.last (LspStore.new index) history).index.Reliable
  := by
  apply Trace.last_of_throughout (I := fun s => s.InStep ∧ s.index.Reliable) _ h hsound
  · exact ⟨LspStore.inStep_new hempty, hreliable⟩
  · intro s e s' hs hstep he
    exact ⟨inStep_of_calls hstep hs.1 hs.2 he, reliable_of_calls hstep hs.2⟩

/-- After calls that keep the index, a search fails if there is a symbol and the query is too long
for a pattern.  Else it returns the first hundred, by path and line, of the symbols at any depth
of the open documents that the pattern around the query matches; where neither the query nor
their names have a special character, these are those whose name contains the query. -/
theorem workspace_symbols_matches (hempty : index.tables = []) (hreliable : index.Reliable)
    {history : List (LspEvent × LspStore)}
    (h : Trace (CallStep treeSitter) (LspStore.new index) history)
    (hsound : Trace.Throughout (fun s e _ => SoundRebuild s e) (LspStore.new index) history)
    {s : LspStore} (hs : s = Trace.last (LspStore.new index) history) (query : String) :
  (maxLikePatternLength < (around query).utf8ByteSize → s.openSymbols ≠ [] →
    s.workspaceSymbols scan query
      = (.error (sqlFailure "search_symbols" patternTooComplex), s.index))
  ∧ ((maxLikePatternLength < (around query).utf8ByteSize → s.openSymbols = []) →
    ∃ sorted : List OpenSymbol,
      s.workspaceSymbols scan query
        = (.ok ((sorted.take 100).map OpenSymbol.location), s.index)
      ∧ sorted.Pairwise (fun a b => byPathAndLine a.row b.row)
      ∧ sorted.Perm (s.openSymbols.filter (fun sym => like (around query) sym.symbol.name))
      ∧ ((∀ c ∈ query.toList, ¬ IsLikeSpecial c) →
        (∀ sym ∈ s.openSymbols, '\x00' ∉ sym.symbol.name.toList) →
        sorted.Perm (s.openSymbols.filter (fun sym =>
          OccursIn query.toList sym.symbol.name.toList))))
  := by
  obtain ⟨hinStep, hindex⟩ := inStep_of_trace treeSitter hempty hreliable h hsound
  rw [← hs] at hinStep hindex
  constructor
  · intro hlong hsymbols
    apply SymbolIndex.searchSymbols_long hindex hlong (hinStep.tables_eq_nil_iff.not.mpr hsymbols)
  · intro hshort
    have hsearch := @SymbolIndex.searchSymbols_short scan query s.index hindex
      (fun hlong => hinStep.tables_eq_nil_iff.mpr (hshort hlong))
    obtain ⟨sorted, hsorted, hordered, hperm⟩ :=
      exists_sorted_symbols scan (around query) hinStep.tables_perm
    refine ⟨sorted, ?_, hordered, hperm, ?_⟩
    · have hlocation : LspRow.location ∘ OpenSymbol.row = OpenSymbol.location :=
        funext OpenSymbol.location_row
      rw [LspStore.workspaceSymbols, hsearch, hsorted, ← List.map_take, List.map_map, hlocation]
    · intro hquery hnames
      apply hperm.trans
      apply List.Perm.of_eq
      apply List.filter_congr
      intro sym hsym
      rw [Bool.eq_iff_iff, decide_eq_true_iff]
      apply like_around_iff hquery (hnames sym hsym)

end Search

/-! ### A function found by an underscore -/

theorem openSymbols_indexedMain (extractor : SymbolExtractor) :
  (indexedMain extractor).openSymbols = [⟨"main.rs", mainSymbol⟩]
  := rfl

/-- The function of `main.rs` is found by its name. -/
theorem workspace_symbols_matches_main :
  ∃ (s : LspStore) (sorted : List OpenSymbol),
    Trace (CallStep sampleTreeSitter) (LspStore.new ⟨[], []⟩)
      [((.openDocument "main.rs" mainSource 1, .ok (.symbols 1)), s)]
    ∧ s.workspaceSymbols Scan.inserted "MAIN"
      = (.ok ((sorted.take 100).map OpenSymbol.location), s.index)
    ∧ sorted.Perm (s.openSymbols.filter (fun sym =>
      OccursIn "MAIN".toList sym.symbol.name.toList))
  := by
  obtain ⟨extractor, -, hopen⟩ := calls_open_mainSource
  have htrace : Trace (CallStep sampleTreeSitter) (LspStore.new ⟨[], []⟩)
      [((.openDocument "main.rs" mainSource 1, .ok (.symbols 1)), indexedMain extractor)] :=
    CallStep.cons hopen Trace.nil
  have hreliable : (⟨[], []⟩ : LspDb).Reliable := rfl
  have hsound : Trace.Throughout (fun s e _ => SoundRebuild s e) (LspStore.new ⟨[], []⟩)
      [((LspCall.openDocument "main.rs" mainSource 1,
        (.ok (.symbols 1) : Outcome String LspReply)), indexedMain extractor)] := by
    constructor
    · rintro ⟨⟩
    · trivial
  obtain ⟨-, hsearch⟩ := workspace_symbols_matches sampleTreeSitter Scan.inserted rfl hreliable
    htrace hsound rfl "MAIN"
  have hshort : ¬ maxLikePatternLength < (around "MAIN").utf8ByteSize := by decide
  obtain ⟨sorted, hfound, -, -, hcontains⟩ := hsearch (fun hlong => absurd hlong hshort)
  use indexedMain extractor, sorted, htrace, hfound
  apply hcontains
  · rw [← List.all_iff_forall_prop]
    decide
  · intro sym hsym
    rw [Trace.last, Trace.last, openSymbols_indexedMain] at hsym
    rw [List.mem_singleton.mp hsym]
    decide

/-- A search returns the first hundred, by path and line, of the symbols whose name contains the
query. -/
def LspStore.SearchContains (s : LspStore) (query : String) : Prop :=
  ∃ sorted : List OpenSymbol,
    s.workspaceSymbols Scan.inserted query
      = (.ok ((sorted.take 100).map OpenSymbol.location), s.index)
    ∧ sorted.Pairwise (fun a b => byPathAndLine a.row b.row)
    ∧ sorted.Perm (s.openSymbols.filter (fun sym =>
      OccursIn query.toList sym.symbol.name.toList))

/-- A search that finds the function, although its name does not contain the query. -/
theorem not_searchContains_indexedMain (extractor : SymbolExtractor) :
  ¬ (indexedMain extractor).SearchContains "m_in"
  := by
  rintro ⟨sorted, hfound, -, hperm⟩
  have hshort : ¬ maxLikePatternLength < (around "m_in").utf8ByteSize := by decide
  have hmatch : (flatten "main.rs" [mainSymbol]).filter (fun row => like (around "m_in") row.name)
      = flatten "main.rs" [mainSymbol] := by decide
  have hcontains : (indexedMain extractor).openSymbols.filter (fun sym =>
      OccursIn "m_in".toList sym.symbol.name.toList) = [] := by
    rw [openSymbols_indexedMain]
    decide
  have hsearch := @SymbolIndex.searchSymbols_short Scan.inserted "m_in"
    (indexedMain extractor).index rfl (fun hlong => absurd hlong hshort)
  rw [hcontains, List.perm_nil] at hperm
  rw [LspStore.workspaceSymbols, hsearch, hperm] at hfound
  have hlength := congrArg List.length (Except.ok.inj (Prod.mk.inj hfound).1)
  have hrows := (Scan.inserted.perm_orderBy byPathAndLine
    ((indexedMain extractor).index.tables.filter (fun row => like (around "m_in") row.name)))
  have htable : (indexedMain extractor).index.tables = flatten "main.rs" [mainSymbol] := rfl
  rw [List.length_map, List.length_take, hrows.length_eq, htable, hmatch] at hlength
  cases hlength

/-- A query too long for a pattern fails. -/
theorem not_searchContains_long (extractor : SymbolExtractor) {query : String}
    (hlong : maxLikePatternLength < (around query).utf8ByteSize) :
  ¬ (indexedMain extractor).SearchContains query
  := by
  rintro ⟨sorted, hfound, -, -⟩
  have hreliable : (indexedMain extractor).index.Reliable := rfl
  have hrows : (indexedMain extractor).index.tables ≠ [] := List.cons_ne_nil _ _
  rw [LspStore.workspaceSymbols, SymbolIndex.searchSymbols_long hreliable hlong hrows] at hfound
  cases (Prod.mk.inj hfound).1

/-- The search `m_in` finds the function of `main.rs`, and a long query fails. -/
theorem not_workspace_symbols_contains :
  ∃ s : LspStore,
    Trace (CallStep sampleTreeSitter) (LspStore.new ⟨[], []⟩)
      [((.openDocument "main.rs" mainSource 1, .ok (.symbols 1)), s)]
    ∧ ¬ s.SearchContains "m_in" ∧ ¬ s.SearchContains (longWord 49999)
  := by
  obtain ⟨extractor, -, hopen⟩ := calls_open_mainSource
  have hlong : 49998 < 49999 := by omega
  use indexedMain extractor, CallStep.cons hopen Trace.nil
  use not_searchContains_indexedMain extractor
  apply not_searchContains_long extractor (lt_around_longWord hlong)

end OrchestraRag
