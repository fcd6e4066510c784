import OrchestraRag.Parser.Symbols

/-!
# When extraction panics

Extraction panics exactly when one of the `importTexts` of the tree, the import and export
statements that are not inside another symbol, is too long and cannot be cut at byte 117
(`collectSymbols_panicked`).
-/

namespace OrchestraRag

/-! ### Cuts -/

/-- The text is short enough, or its byte 117 lies between two characters. -/
def Cuttable (text : String) : Prop :=
  Utf8.byteLength (trimImport text) ≤ 120 ∨ Utf8.IsBoundary (trimImport text) 117

/-- Truncation panics exactly on the texts it cannot cut. -/
theorem truncateImport_okIff (text : String) :
  (truncateImport text).OkIff (Cuttable text)
  := by
  have hsplit := @Utf8.splitAtByte_ne_none 117 (trimImport text)
  constructor
  · intro h
    rw [truncateImport]
    split
    next hlong =>
      have hboundary := h.resolve_left (Nat.not_le.mpr hlong)
      obtain ⟨cut, hcut⟩ := Option.ne_none_iff_exists'.mp (hsplit.mpr hboundary)
      rw [hcut]
      exact ⟨_, rfl⟩
    next => exact ⟨_, rfl⟩
  · intro h
    obtain ⟨hlong, hboundary⟩ := not_or.mp h
    have hcut := not_not.mp (mt hsplit.mp hboundary)
    rw [truncateImport, if_pos (Nat.not_le.mp hlong), hcut]

/-! ### Single symbols -/

/-- No node inside a body is an import. -/
theorem classifyNestedNode_not_import {nodeType : String} {lang : LangCategory} {kind : SymbolKind}
    (h : classifyNestedNode nodeType lang = some kind) :
  ¬ (kind = .import_ ∨ kind = .export_)
  := by
  cases lang with
  | generic =>
      rw [classifyNestedNode] at h
      split at h
      · cases h
        decide
      · cases h
  | _ =>
      obtain ⟨l₁, l₂, htable, -⟩ := List.lookup_eq_some_iff.mp h
      have hmem : (nodeType, kind) ∈ l₁ ++ (nodeType, kind) :: l₂ := by simp
      rw [← htable] at hmem
      simp only [List.mem_cons, Prod.mk.injEq, List.not_mem_nil, or_false] at hmem
      grind

/-- A node that is no import becomes a symbol exactly when it has a name. -/
theorem buildSymbol_of_not_import (source : String) (lang : LangCategory) (node : Node)
    {kind : SymbolKind} (h : ¬ (kind = .import_ ∨ kind = .export_)) :
  ∃ symbol, buildSymbol source lang node kind = .ok symbol
    ∧ symbol.isSome = (extractDeclaredName source node lang).isSome
  := by
  rw [buildSymbol, extractName, if_neg h]
  cases hname : extractDeclaredName source node lang with
  | none => exact ⟨none, rfl, rfl⟩
  | some name =>
      by_cases hcontainer : isContainer kind
      · simp only [pure_bind, if_pos hcontainer]
        apply Outcome.exists_ok_bind
        · apply Outcome.filterMapM_ok
          intro child _
          cases hkind : classifyNestedNode child.val.kind lang with
          | none => exact ⟨none, rfl⟩
          | some nested =>
              have hnested := classifyNestedNode_not_import hkind
              obtain ⟨symbol, hsymbol, -⟩ :=
                buildSymbol_of_not_import source lang child.val hnested
              exact ⟨symbol, hsymbol⟩
        · intro members
          exact ⟨_, rfl, rfl⟩
      · simp only [pure_bind, if_neg hcontainer]
        exact ⟨_, rfl, rfl⟩
termination_by node
decreasing_by
  apply sizeOf_lt_of_mem_bodyOf child.property

/-! ### The walk -/

/-- The text of an import or export statement. -/
def statementText (source : String) (lang : LangCategory) (node : Node) : Option String :=
  match nodeKindToSymbol node.kind lang with
  | some kind => if kind = .import_ ∨ kind = .export_ then nodeText source node else none
  | none => none

/-- The node is a declaration with a name. -/
def isDeclaration (source : String) (lang : LangCategory) (node : Node) : Bool :=
  match nodeKindToSymbol node.kind lang with
  | some kind =>
      !(kind = .import_ ∨ kind = .export_) && (extractDeclaredName source node lang).isSome
  | none => false

mutual

/-- The texts of the import and export statements at and below a node that are not inside
another symbol. -/
def importTexts (source : String) (lang : LangCategory) (parentKind : String) :
    Node → List String
  | .mk kind fieldName range children =>
      let node := Node.mk kind fieldName range children
      match statementText source lang node with
      | some text => [text]
      | none =>
          if isDeclaration source lang node ∨ (assignedName source lang parentKind node).isSome
          then []
          else childImportTexts source lang kind children

def childImportTexts (source : String) (lang : LangCategory) (parentKind : String) :
    List Node → List String
  | [] => []
  | node :: nodes =>
      importTexts source lang parentKind node ++ childImportTexts source lang parentKind nodes

end

/-- An import or export statement becomes a symbol when its text can be cut. -/
theorem symbolOfNode_of_statementText {source : String} {lang : LangCategory} {node : Node}
    {text : String} (h : statementText source lang node = some text) :
  (Cuttable text → ∃ symbol, symbolOfNode source lang node = .ok (some symbol))
    ∧ (¬ Cuttable text → symbolOfNode source lang node = .error .panicked)
  := by
  rw [statementText] at h
  rw [symbolOfNode]
  cases hkind : nodeKindToSymbol node.kind lang with
  | none =>
      rw [hkind] at h
      cases h
  | some kind =>
      simp only [hkind] at h ⊢
      split at h
      next himport =>
        have htruncate := truncateImport_okIff text
        rw [buildSymbol, extractName, if_pos himport, h]
        have hcontainer : ¬ isContainer kind := by
          rcases himport with rfl | rfl
          · decide
          · decide
        constructor
        · intro hcut
          obtain ⟨name, hname⟩ := htruncate.ok hcut
          simp only [hname, if_neg hcontainer]
          exact ⟨_, rfl⟩
        · intro hcut
          simp only [htruncate.panicked hcut]
          rfl
      next => cases h

/-- A node that is no such statement becomes a symbol exactly when it is a declaration with a
name. -/
theorem symbolOfNode_of_no_statementText {source : String} {lang : LangCategory} {node : Node}
    (h : statementText source lang node = none) :
  ∃ symbol, symbolOfNode source lang node = .ok symbol
    ∧ symbol.isSome = isDeclaration source lang node
  := by
  rw [statementText] at h
  rw [symbolOfNode, isDeclaration]
  cases hkind : nodeKindToSymbol node.kind lang with
  | none => exact ⟨none, rfl, rfl⟩
  | some kind =>
      simp only [hkind] at h ⊢
      by_cases himport : kind = .import_ ∨ kind = .export_
      · rw [if_pos himport] at h
        use none
        constructor
        · rw [buildSymbol, extractName, if_pos himport, h]
          rfl
        · simp [himport]
      · obtain ⟨symbol, hsymbol, hname⟩ := buildSymbol_of_not_import source lang node himport
        use symbol, hsymbol
        simp [himport, hname]

mutual

/-- The walk at a node panics exactly when one of the statements it comes to cannot be cut. -/
theorem collectNodeSymbols_okIff (source : String) (lang : LangCategory) (parentKind : String) :
  ∀ node, (collectNodeSymbols source lang parentKind node).OkIff
    (∀ text ∈ importTexts source lang parentKind node, Cuttable text)
  | .mk kind fieldName range children => by
      have hchildren := collectChildSymbols_okIff source lang kind children
      rw [collectNodeSymbols, importTexts]
      cases hstatement : statementText source lang (.mk kind fieldName range children) with
      | some text =>
          obtain ⟨hcut, hpanic⟩ := symbolOfNode_of_statementText hstatement
          simp only [List.mem_singleton, forall_eq]
          constructor
          · intro h
            obtain ⟨symbol, hsymbol⟩ := hcut h
            rw [hsymbol]
            exact ⟨_, rfl⟩
          · intro h
            rw [hpanic h]
            rfl
      | none =>
          obtain ⟨symbol, hsymbol, hdeclaration⟩ := symbolOfNode_of_no_statementText hstatement
          simp only [hsymbol, ← hdeclaration]
          cases symbol with
          | some symbol =>
              apply (Outcome.OkIff.pure [symbol]).congr
              simp
          | none =>
              cases hname : assignedName source lang parentKind
                  (.mk kind fieldName range children) with
              | some name =>
                  apply (Outcome.OkIff.pure _).congr
                  simp
              | none =>
                  apply hchildren.congr
                  simp

theorem collectChildSymbols_okIff (source : String) (lang : LangCategory) (parentKind : String) :
  ∀ nodes, (collectChildSymbols source lang parentKind nodes).OkIff
    (∀ text ∈ childImportTexts source lang parentKind nodes, Cuttable text)
  | [] => by
      rw [collectChildSymbols, childImportTexts]
      apply (Outcome.OkIff.pure []).congr
      simp
  | node :: nodes => by
      have hnode := collectNodeSymbols_okIff source lang parentKind node
      have hnodes := collectChildSymbols_okIff source lang parentKind nodes
      rw [collectChildSymbols, childImportTexts]
      apply (hnode.bind (fun symbols _ => hnodes.bind (fun rest _ => Outcome.OkIff.pure _))).congr
      simp [or_imp, forall_and]

end

/-! ### The extractor -/

/-- Extracts code symbols from source text using a parser. -/
structure SymbolExtractor where
  parser : ParserWrapper

namespace SymbolExtractor

variable (treeSitter : TreeSitter)

def new : SymbolExtractor :=
  ⟨.new⟩

/-- Parse `content` in the given `language` and return top-level symbols. -/
def extractSymbols (extractor : SymbolExtractor) (content language : String) :
    Outcome ParserError (List CodeSymbol) × SymbolExtractor :=
  match extractor.parser.parse treeSitter content language with
  | (.error e, parser) => (.error e, ⟨parser⟩)
  | (.ok root, parser) => (collectSymbols root content (categorizeLanguage language), ⟨parser⟩)

/-- What an extractor that never parsed answers. -/
def extractFresh (content language : String) : Outcome ParserError (List CodeSymbol) :=
  (new.extractSymbols treeSitter content language).1

/-- Every import and export statement of the text, outside other symbols, can be cut. -/
def ImportsCuttable (content language : String) : Prop :=
  ∀ root, ParserWrapper.parseFresh treeSitter content language = .ok root →
    ∀ text ∈ childImportTexts content (categorizeLanguage language) root.kind root.children,
      Cuttable text

variable {treeSitter}

/-- Extraction answers as with a fresh extractor, and keeps the parser coherent. -/
theorem extractSymbols_eq_fresh {extractor : SymbolExtractor}
    (h : extractor.parser.Coherent treeSitter) (content language : String) :
  (extractor.extractSymbols treeSitter content language).1
      = extractFresh treeSitter content language
    ∧ (extractor.extractSymbols treeSitter content language).2.parser.Coherent treeSitter
  := by
  obtain ⟨hfresh, hcoherent⟩ := ParserWrapper.parse_eq_fresh h content language
  rw [ParserWrapper.parseFresh] at hfresh
  simp only [extractFresh, extractSymbols, new]
  rcases hparse : extractor.parser.parse treeSitter content language with ⟨outcome, parser⟩
  rcases hnew : ParserWrapper.new.parse treeSitter content language with ⟨outcome', parser'⟩
  rw [hparse, hnew] at hfresh
  rw [hparse] at hcoherent
  cases hfresh
  cases outcome with
  | error e => exact ⟨rfl, hcoherent⟩
  | ok root => exact ⟨rfl, hcoherent⟩

/-- Extraction panics exactly when a statement cannot be cut. -/
theorem extractFresh_panicked_iff (content language : String) :
  (extractFresh treeSitter content language).Panicked
    ↔ ¬ ImportsCuttable treeSitter content language
  := by
  rw [extractFresh, extractSymbols, ImportsCuttable, ParserWrapper.parseFresh, new]
  have hparser := @ParserWrapper.parseFresh_not_panicked treeSitter content language
  rw [ParserWrapper.parseFresh] at hparser
  rcases hparse : ParserWrapper.new.parse treeSitter content language with ⟨outcome, parser⟩
  rw [hparse] at hparser
  cases outcome with
  | error e =>
      constructor
      · intro h
        cases h
        apply absurd rfl hparser
      · intro h
        apply absurd _ h
        intro root hroot
        cases hroot
  | ok root =>
      have hwalk := collectChildSymbols_okIff content (categorizeLanguage language) root.kind
        root.children
      simp only [collectSymbols, hwalk.panicked_iff, not_iff_not]
      constructor
      · intro h root' hroot
        cases hroot
        apply h
      · intro h
        apply h root rfl

end SymbolExtractor

/-! ### Two sources -/

/-- A Rust source with one function. -/
def mainSource : String :=
  "fn main() {}"

/-- The tree of `mainSource`. -/
def mainTree : Node :=
  .mk "source_file" none ⟨0, 12, ⟨0, 0⟩, ⟨0, 12⟩⟩
    [.mk "function_item" none ⟨0, 12, ⟨0, 0⟩, ⟨0, 12⟩⟩
      [.mk "identifier" (some "name") ⟨3, 7, ⟨0, 3⟩, ⟨0, 7⟩⟩ []]]

/-- The function of `mainSource`. -/
def mainSymbol : CodeSymbol :=
  .mk "main" .function ⟨0, 0, 0, 12⟩ none []

/-- A JavaScript source with one import statement, whose byte 117 is inside a character. -/
def longImport : String :=
  "import \"ééééééééééééééééééééééééééééééééééééééééééééééééééééééééé\""

/-- The tree of `longImport`. -/
def longImportTree : Node :=
  .mk "program" none ⟨0, 123, ⟨0, 0⟩, ⟨0, 123⟩⟩
    [.mk "import_statement" none ⟨0, 123, ⟨0, 0⟩, ⟨0, 123⟩⟩ []]

/-- A Tree-sitter that parses `mainSource` and `longImport` and nothing else. -/
def sampleTreeSitter : TreeSitter where
  setLanguage _ := .ok ()
  parse _ content :=
    if content = mainSource then some mainTree
    else if content = longImport then some longImportTree
    else none
  toSexp root := "(" ++ root.kind ++ ")"

theorem extractFresh_mainSource :
  SymbolExtractor.extractFresh sampleTreeSitter mainSource "rust" = .ok [mainSymbol]
  := by
  have hkind : nodeKindToSymbol "function_item" .rust = some .function := rfl
  have hsymbols : collectSymbols mainTree mainSource .rust = .ok [mainSymbol] := by
    simp only [collectSymbols, mainTree, Node.children, Node.kind, collectChildSymbols,
      collectNodeSymbols, symbolOfNode, hkind]
    rw [buildSymbol]
    rfl
  rw [← hsymbols]
  rfl

theorem not_cuttable_longImport :
  ¬ Cuttable longImport
  := by
  have htrim : trimImport longImport = longImport.toList := by decide +kernel
  have hlong : ¬ Utf8.byteLength longImport.toList ≤ 120 := by decide +kernel
  have hcut : Utf8.splitAtByte 117 longImport.toList = none := by decide +kernel
  rw [Cuttable, htrim]
  rintro (hshort | hboundary)
  · apply hlong hshort
  · apply Utf8.splitAtByte_ne_none.mpr hboundary hcut

theorem parse_longImport (language : Language) :
  sampleTreeSitter.parse language longImport = some longImportTree
  := by
  have hdiffer : longImport ≠ mainSource := by decide +kernel
  simp only [sampleTreeSitter, if_neg hdiffer, if_true]

theorem extractFresh_longImport :
  SymbolExtractor.extractFresh sampleTreeSitter longImport "javascript" = .error .panicked
  := by
  apply (SymbolExtractor.extractFresh_panicked_iff longImport "javascript").mpr
  intro h
  have hparse : ParserWrapper.parseFresh sampleTreeSitter longImport "javascript"
      = .ok longImportTree := by
    have hlanguage : ParserWrapper.new.ensureLanguage sampleTreeSitter "javascript"
        = (.ok (), ⟨⟨some ⟨"tree_sitter_javascript::LANGUAGE"⟩⟩, .new, some "javascript"⟩) := by
      rfl
    rw [ParserWrapper.parseFresh, ParserWrapper.parse, hlanguage]
    simp only [ParserWrapper.parseText, parse_longImport, Option.bind_some]
  have hkind : nodeKindToSymbol "import_statement" (categorizeLanguage "javascript")
      = some .import_ := by
    rfl
  have htext : nodeText longImport
      (.mk "import_statement" none ⟨0, 123, ⟨0, 0⟩, ⟨0, 123⟩⟩ []) = some longImport := by
    decide +kernel
  apply not_cuttable_longImport
  apply h longImportTree hparse
  simp [longImportTree, Node.children, Node.kind, childImportTexts, importTexts, statementText,
    hkind, htext]

end OrchestraRag
