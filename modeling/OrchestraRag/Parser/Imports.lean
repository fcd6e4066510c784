import OrchestraRag.Parser.Containers
import OrchestraRag.Parser.Filter
import OrchestraRag.Parser.Positions

/-!
# Imports

`get_imports` answers with the import symbols at the top of the forest.  There is one for every
statement of that kind that the walk comes to, that is below no other symbol, and they are in the
order of the text; no import is nested in another symbol (`imports_exact`).
-/

namespace OrchestraRag

/-! ### What the walk comes to -/

section Sites

variable (source : String) (lang : LangCategory)

/-- The walk makes no symbol of the node, and goes on to its children. -/
structure Descends (parentKind : String) (node : Node) : Prop where
  statement : statementText source lang node = none
  definition : definitionName source lang node = none
  assignment : assignedName source lang parentKind node = none

/-- The walk comes to the end of a path that starts at a node, whose parent is of kind
`parentKind`. -/
def Comes : String → Path → Node → Prop
  | _, [], _ => True
  | parentKind, i :: path, node =>
      Descends source lang parentKind node
        ∧ ∀ child, node.children[i]? = some child → Comes node.kind path child

/-- At the end of the path there is an import statement, and the walk comes to it. -/
def ImportSite (parentKind : String) (node : Node) (path : Path) : Prop :=
  Comes source lang parentKind path node
    ∧ ∃ below text, node.follow path = some below
      ∧ nodeKindToSymbol below.kind lang = some .import_ ∧ nodeText source below = some text

/-- The symbol is that of the statement at the end of the path, named by its text. -/
def ImportedAt (node : Node) (sym : CodeSymbol) (path : Path) : Prop :=
  ∃ below text name, node.follow path = some below ∧ nodeText source below = some text
    ∧ truncateImport text = .ok name
    ∧ sym = .mk name .import_ (.ofRange below.range) none []

mutual

/-- The paths to the import statements that the walk comes to, in the order of the text. -/
def importSites (parentKind : String) : Node → List Path
  | .mk kind fieldName range children =>
      let node := Node.mk kind fieldName range children
      match statementText source lang node with
      | some _ => if nodeKindToSymbol kind lang = some .import_ then [[]] else []
      | none =>
          if (definitionName source lang node).isSome
            ∨ (assignedName source lang parentKind node).isSome
          then []
          else childImportSites kind 0 children

def childImportSites (parentKind : String) (i : ℕ) : List Node → List Path
  | [] => []
  | node :: nodes =>
      (importSites parentKind node).map (i :: ·) ++ childImportSites parentKind (i + 1) nodes

end

end Sites

variable {source : String} {lang : LangCategory} {parentKind : String} {node : Node}
  {kind : SymbolKind} {symbols : List CodeSymbol}

theorem importSites_of_statement {text : String} (h : statementText source lang node = some text) :
  importSites source lang parentKind node
    = if nodeKindToSymbol node.kind lang = some .import_ then [[]] else []
  := by
  obtain ⟨nodeKind, fieldName, range, children⟩ := node
  rw [importSites]
  simp only [h]
  rfl

theorem importSites_of_definition {name : String}
    (h : definitionName source lang node = some name) :
  importSites source lang parentKind node = []
  := by
  have hstatement := statementText_of_definition h
  obtain ⟨nodeKind, fieldName, range, children⟩ := node
  rw [importSites]
  simp only [hstatement, h, Option.isSome_some, true_or, if_true]

theorem importSites_of_assignment {name : String}
    (hstatement : statementText source lang node = none)
    (h : assignedName source lang parentKind node = some name) :
  importSites source lang parentKind node = []
  := by
  obtain ⟨nodeKind, fieldName, range, children⟩ := node
  rw [importSites]
  simp only [hstatement, h, Option.isSome_some, or_true, if_true]

theorem importSites_of_descends (h : Descends source lang parentKind node) :
  importSites source lang parentKind node
    = childImportSites source lang node.kind 0 node.children
  := by
  obtain ⟨hstatement, hdefinition, hassigned⟩ := h
  obtain ⟨nodeKind, fieldName, range, children⟩ := node
  rw [importSites]
  simp only [hstatement, hdefinition, hassigned, Option.isSome_none, Bool.false_eq_true, or_self,
    if_false]
  rfl

/-- What becomes of a node. -/
theorem statement_or_definition_or_descends (source : String) (lang : LangCategory)
    (parentKind : String) (node : Node) :
  (∃ text, statementText source lang node = some text)
    ∨ (∃ name, definitionName source lang node = some name)
    ∨ (statementText source lang node = none
      ∧ ∃ name, assignedName source lang parentKind node = some name)
    ∨ Descends source lang parentKind node
  := by
  cases hstatement : statementText source lang node with
  | some text => exact Or.inl ⟨text, rfl⟩
  | none =>
      cases hdefinition : definitionName source lang node with
      | some name => exact Or.inr (Or.inl ⟨name, rfl⟩)
      | none =>
          cases hassigned : assignedName source lang parentKind node with
          | some name => exact Or.inr (Or.inr (Or.inl ⟨rfl, name, rfl⟩))
          | none => exact Or.inr (Or.inr (Or.inr ⟨hstatement, hdefinition, hassigned⟩))

theorem childImportSites_eq (i : ℕ) (nodes : List Node) :
  childImportSites source lang parentKind i nodes
    = childPaths (importSites source lang parentKind) i nodes
  := by
  induction nodes generalizing i with
  | nil => rfl
  | cons node nodes ih => rw [childImportSites, childPaths, ih]

/-- A node is the site of an import statement exactly if it is one. -/
theorem nil_mem_importSites :
  [] ∈ importSites source lang parentKind node
    ↔ nodeKindToSymbol node.kind lang = some .import_ ∧ ∃ text, nodeText source node = some text
  := by
  constructor
  · intro hmem
    rcases statement_or_definition_or_descends source lang parentKind node with
      ⟨text, htext⟩ | ⟨name, hname⟩ | ⟨hstatement, name, hname⟩ | hdescends
    · rw [importSites_of_statement htext] at hmem
      split at hmem
      case isTrue himport =>
          use himport, text
          rw [← htext, statementText, himport]
          rfl
      case isFalse => cases hmem
    · rw [importSites_of_definition hname] at hmem
      cases hmem
    · rw [importSites_of_assignment hstatement hname] at hmem
      cases hmem
    · rw [importSites_of_descends hdescends, childImportSites_eq] at hmem
      obtain ⟨k, child, tail, -, hpath, -⟩ := mem_childPaths.mp hmem
      cases hpath
  · rintro ⟨himport, text, htext⟩
    have hstatement : statementText source lang node = some text := by
      rw [statementText, himport, ← htext]
      rfl
    rw [importSites_of_statement hstatement, if_pos himport]
    apply List.mem_cons_self

/-- The sites below a node are those of its children, if the walk goes on to them. -/
theorem cons_mem_importSites {i : ℕ} {path : Path} :
  i :: path ∈ importSites source lang parentKind node
    ↔ Descends source lang parentKind node
      ∧ ∃ child, node.children[i]? = some child ∧ path ∈ importSites source lang node.kind child
  := by
  constructor
  · intro hmem
    rcases statement_or_definition_or_descends source lang parentKind node with
      ⟨text, htext⟩ | ⟨name, hname⟩ | ⟨hstatement, name, hname⟩ | hdescends
    · rw [importSites_of_statement htext] at hmem
      split at hmem
      · cases List.mem_singleton.mp hmem
      · cases hmem
    · rw [importSites_of_definition hname] at hmem
      cases hmem
    · rw [importSites_of_assignment hstatement hname] at hmem
      cases hmem
    · use hdescends
      rw [importSites_of_descends hdescends, childImportSites_eq] at hmem
      obtain ⟨k, child, tail, hchild, hpath, htail⟩ := mem_childPaths.mp hmem
      rw [Nat.zero_add] at hpath
      obtain ⟨rfl, rfl⟩ := List.cons.inj hpath
      use child, hchild, htail
  · rintro ⟨hdescends, child, hchild, hpath⟩
    rw [importSites_of_descends hdescends, childImportSites_eq]
    apply mem_childPaths.mpr
    use i, child, path, hchild
    rw [Nat.zero_add]
    exact ⟨rfl, hpath⟩

/-- The sites are those of all import statements that the walk comes to. -/
theorem mem_importSites {path : Path} :
  path ∈ importSites source lang parentKind node ↔ ImportSite source lang parentKind node path
  := by
  induction path generalizing parentKind node with
  | nil =>
      rw [nil_mem_importSites, ImportSite, Node.follow]
      constructor
      · rintro ⟨himport, text, htext⟩
        exact ⟨trivial, node, text, rfl, himport, htext⟩
      · rintro ⟨-, below, text, hbelow, himport, htext⟩
        obtain rfl := Option.some.inj hbelow
        exact ⟨himport, text, htext⟩
  | cons i path ih =>
      rw [cons_mem_importSites, ImportSite, Comes, Node.follow]
      constructor
      · rintro ⟨hdescends, child, hchild, hpath⟩
        obtain ⟨hcomes, hbelow⟩ := ih.mp hpath
        rw [hchild]
        refine ⟨⟨hdescends, ?_⟩, hbelow⟩
        rintro child' ⟨⟩
        apply hcomes
      · rintro ⟨⟨hdescends, hcomes⟩, below, text, hbelow, himport, htext⟩
        obtain ⟨child, hchild, hfollow⟩ := Option.bind_eq_some_iff.mp hbelow
        use hdescends, child, hchild
        apply ih.mpr ⟨hcomes child hchild, below, text, hfollow, himport, htext⟩

mutual

/-- The sites are in the order of the positions. -/
theorem importSites_sublist :
  ∀ {parentKind : String} {node : Node},
    (importSites source lang parentKind node).Sublist node.positions
  | parentKind, .mk nodeKind fieldName range children => by
      rw [Node.positions]
      rcases statement_or_definition_or_descends source lang parentKind
          (.mk nodeKind fieldName range children) with
        ⟨text, htext⟩ | ⟨name, hname⟩ | ⟨hstatement, name, hname⟩ | hdescends
      · rw [importSites_of_statement htext]
        split
        · apply List.Sublist.cons_cons _ (List.nil_sublist _)
        · apply List.nil_sublist
      · rw [importSites_of_definition hname]
        apply List.nil_sublist
      · rw [importSites_of_assignment hstatement hname]
        apply List.nil_sublist
      · rw [importSites_of_descends hdescends]
        apply List.Sublist.cons _ (childImportSites_sublist children)

theorem childImportSites_sublist {parentKind : String} {i : ℕ} :
  ∀ nodes : List Node,
    (childImportSites source lang parentKind i nodes).Sublist (childPositions i nodes)
  | [] => List.Sublist.slnil
  | node :: nodes => by
      rw [childImportSites, childPositions]
      apply List.Sublist.append (importSites_sublist.map _) (childImportSites_sublist nodes)

end

/-! ### What the walk makes of imports -/

/-- A statement is named by its text, cut. -/
theorem buildSymbol_of_statement {text : String} (hstatement : IsStatement kind)
    (htext : nodeText source node = some text) :
  buildSymbol source lang node kind = (do
    let name ← truncateImport text
    pure (some (.mk name kind (.ofRange node.range) none [])))
  := by
  have hextract : extractName source node kind lang = some <$> truncateImport text := by
    rw [extractName, if_pos hstatement, htext]
  have hcontainer : isContainer kind = false ∧ extractDetail source node kind = none := by
    rcases hstatement with rfl | rfl
    · exact ⟨rfl, rfl⟩
    · exact ⟨rfl, rfl⟩
  rw [buildSymbol_eq, hextract, bind_map_left]
  simp only [hcontainer.1, hcontainer.2, Bool.false_eq_true, if_false, pure_bind]

/-- What the walk makes of a statement. -/
theorem collect_of_statement {text : String}
    (h : collectNodeSymbols source lang parentKind node = .ok symbols)
    (htext : statementText source lang node = some text) :
  ∃ kind name, nodeKindToSymbol node.kind lang = some kind ∧ nodeText source node = some text
    ∧ truncateImport text = .ok name ∧ symbols = [.mk name kind (.ofRange node.range) none []]
  := by
  obtain ⟨kind, hkind, hstatement⟩ := statement_of_statementText htext
  have hread : nodeText source node = some text := by
    rw [← htext, statementText, hkind]
    exact (if_pos hstatement).symm
  have hbuild := @buildSymbol_of_statement source lang node kind text hstatement hread
  refine ⟨kind, ?_⟩
  cases hname : truncateImport text with
  | error e =>
      rw [hname] at hbuild
      have hwalk : collectNodeSymbols source lang parentKind node = .error e := by
        obtain ⟨nodeKind, fieldName, range, children⟩ := node
        rw [collectNodeSymbols, symbolOfNode_of_kind hkind, hbuild]
        rfl
      rw [hwalk] at h
      cases h
  | ok name =>
      rw [hname] at hbuild
      use name, hkind, hread, rfl
      apply Except.ok.inj (h.symm.trans (collectNodeSymbols_of_build hkind hbuild))

/-- The symbol is that of an import. -/
def CodeSymbol.isImport (sym : CodeSymbol) : Bool :=
  sym.kind = .import_

theorem CodeSymbol.isImport_iff {sym : CodeSymbol} :
  sym.isImport = true ↔ sym.kind = .import_
  := decide_eq_true_iff

mutual

/-- The imports that the walk makes of a node are those of its sites, in order. -/
theorem imports_collectNodeSymbols :
  ∀ {parentKind : String} {node : Node} {symbols : List CodeSymbol},
    collectNodeSymbols source lang parentKind node = .ok symbols →
    List.Forall₂ (ImportedAt source node) (symbols.filter CodeSymbol.isImport)
      (importSites source lang parentKind node)
  | parentKind, .mk nodeKind fieldName range children, symbols, h => by
      cases nodeWalk_of_collect h with
      | statement htext _ =>
          obtain ⟨kind, name, hkind, hread, hname, hsymbols⟩ := collect_of_statement h htext
          rw [importSites_of_statement htext, hkind, hsymbols]
          by_cases himport : kind = .import_
          · obtain rfl := himport
            rw [if_pos rfl]
            apply List.Forall₂.cons _ List.Forall₂.nil
            exact ⟨_, _, _, rfl, hread, hname, rfl⟩
          · rw [if_neg (fun heq => himport (Option.some.inj heq)), List.filter_cons_of_neg]
            · apply List.Forall₂.nil
            · intro hsym
              apply himport (CodeSymbol.isImport_iff.mp hsym)
      | definition hstatement hkind hdefinition hbuild hname hsymkind =>
          rw [importSites_of_definition hname, List.filter_cons_of_neg]
          · apply List.Forall₂.nil
          · intro hsym
            apply hdefinition (Or.inl (hsymkind.symm.trans (CodeSymbol.isImport_iff.mp hsym)))
      | assignment hstatement hname hassigned =>
          rw [importSites_of_assignment hstatement hassigned]
          apply List.Forall₂.nil
      | descend hstatement hname hassigned hchildren =>
          rw [importSites_of_descends ⟨hstatement, hname, hassigned⟩]
          apply imports_collectChildSymbols _ hchildren
          intro j
          rw [Nat.zero_add]

theorem imports_collectChildSymbols :
  ∀ {parentKind : String} {i : ℕ} {nodes : List Node} {symbols : List CodeSymbol} {parent : Node},
    (∀ j, parent.children[i + j]? = nodes[j]?) →
    collectChildSymbols source lang parentKind nodes = .ok symbols →
    List.Forall₂ (ImportedAt source parent) (symbols.filter CodeSymbol.isImport)
      (childImportSites source lang parentKind i nodes)
  | parentKind, i, [], symbols, parent, hnodes, h => by
      rw [collectChildSymbols] at h
      obtain rfl := Except.ok.inj h
      rw [childImportSites]
      apply List.Forall₂.nil
  | parentKind, i, node :: nodes, symbols, parent, hnodes, h => by
      rw [collectChildSymbols] at h
      obtain ⟨part, hpart, h⟩ := Outcome.bind_eq_ok.mp h
      obtain ⟨rest, hrest, h⟩ := Outcome.bind_eq_ok.mp h
      obtain rfl := Except.ok.inj h
      have hnode : parent.children[i]? = some node := hnodes 0
      rw [childImportSites, List.filter_append]
      apply List.rel_append
      · rw [List.forall₂_map_right_iff]
        apply (imports_collectNodeSymbols hpart).imp
        rintro sym path ⟨below, text, name, hbelow, hsym⟩
        refine ⟨below, text, name, ?_, hsym⟩
        rw [Node.follow, hnode, Option.bind_some, hbelow]
      · apply imports_collectChildSymbols _ hrest
        intro j
        rw [Nat.add_assoc, Nat.add_comm 1 j]
        apply hnodes (j + 1)

end

/-! ### What is nested in symbols -/

/-- No import is nested in the symbol. -/
def CodeSymbol.HoldsNoImport (sym : CodeSymbol) : Prop :=
  ∀ below ∈ everySymbol sym.children, ¬ below.isImport = true

/-- A member is no import, and nothing is nested in it. -/
theorem of_memberSymbol {member : Node} {sym : CodeSymbol}
    (h : memberSymbol source lang member = .ok (some sym)) :
  ¬ sym.isImport = true ∧ sym.children = []
  := by
  rw [memberSymbol] at h
  split at h
  case h_1 kind hkind =>
      obtain ⟨-, hsymkind, -, -, hchildren⟩ := of_buildSymbol h
      constructor
      · intro himport
        apply classifyNestedNode_not_import hkind (Or.inl _)
        rw [← hsymkind]
        apply CodeSymbol.isImport_iff.mp himport
      · apply hchildren (classifyNestedNode_not_container hkind)
  case h_2 => cases h

theorem holdsNoImport_of_build {sym : CodeSymbol}
    (h : buildSymbol source lang node kind = .ok (some sym)) :
  sym.HoldsNoImport
  := by
  obtain ⟨-, -, -, hcontainer, hplain⟩ := of_buildSymbol h
  intro below hbelow
  cases hkind : isContainer kind with
  | false =>
      rw [hplain hkind] at hbelow
      cases hbelow
  | true =>
      obtain ⟨child, hchild, hbelow⟩ := mem_everySymbol.mp hbelow
      rw [Outcome.eq_filterMap_of_filterMapM (hcontainer hkind)] at hchild
      obtain ⟨member, -, hmember⟩ := List.mem_filterMap.mp hchild
      have hsome : memberSymbol source lang member = .ok (some child) := by
        cases hresult : memberSymbol source lang member with
        | error e =>
            rw [hresult] at hmember
            cases hmember
        | ok symbol =>
            rw [hresult] at hmember
            exact congrArg Except.ok hmember
      obtain ⟨hnot, hnil⟩ := of_memberSymbol hsome
      rw [CodeSymbol.subtree_eq_cons, hnil] at hbelow
      rw [List.mem_singleton.mp hbelow]
      apply hnot

mutual

theorem holdsNoImport_collectNodeSymbols :
  ∀ {parentKind : String} {node : Node} {symbols : List CodeSymbol},
    collectNodeSymbols source lang parentKind node = .ok symbols →
    ∀ sym ∈ symbols, sym.HoldsNoImport
  | parentKind, .mk nodeKind fieldName range children, symbols, h => by
      cases nodeWalk_of_collect h with
      | statement htext _ =>
          obtain ⟨kind, name, -, -, -, hsymbols⟩ := collect_of_statement h htext
          rw [hsymbols]
          intro sym hsym below hbelow
          rw [List.mem_singleton.mp hsym] at hbelow
          cases hbelow
      | definition hstatement hkind hdefinition hbuild hname hsymkind =>
          intro sym hsym
          rw [List.mem_singleton.mp hsym]
          apply holdsNoImport_of_build hbuild
      | assignment hstatement hname hassigned =>
          intro sym hsym below hbelow
          rw [List.mem_singleton.mp hsym] at hbelow
          cases hbelow
      | descend hstatement hname hassigned hchildren =>
          apply holdsNoImport_collectChildSymbols hchildren

theorem holdsNoImport_collectChildSymbols :
  ∀ {parentKind : String} {nodes : List Node} {symbols : List CodeSymbol},
    collectChildSymbols source lang parentKind nodes = .ok symbols →
    ∀ sym ∈ symbols, sym.HoldsNoImport
  | parentKind, [], symbols, h => by
      rw [collectChildSymbols] at h
      obtain rfl := Except.ok.inj h
      intro sym hsym
      cases hsym
  | parentKind, node :: nodes, symbols, h => by
      rw [collectChildSymbols] at h
      obtain ⟨part, hpart, h⟩ := Outcome.bind_eq_ok.mp h
      obtain ⟨rest, hrest, h⟩ := Outcome.bind_eq_ok.mp h
      obtain rfl := Except.ok.inj h
      intro sym hsym
      rcases List.mem_append.mp hsym with hsym | hsym
      · apply holdsNoImport_collectNodeSymbols hpart sym hsym
      · apply holdsNoImport_collectChildSymbols hrest sym hsym

end

/-- The imports at the top of a forest that has no others are all its imports. -/
theorem filter_everySymbol_isImport (h : ∀ sym ∈ symbols, sym.HoldsNoImport) :
  (everySymbol symbols).filter CodeSymbol.isImport = symbols.filter CodeSymbol.isImport
  := by
  induction symbols with
  | nil => rfl
  | cons sym symbols ih =>
      rw [List.forall_mem_cons] at h
      have hnone : (everySymbol sym.children).filter CodeSymbol.isImport = [] :=
        List.filter_eq_nil_iff.mpr h.1
      rw [everySymbol, List.filter_append, ih h.2, CodeSymbol.subtree_eq_cons, List.filter_cons,
        List.filter_cons, hnone]
      split
      · rfl
      · rfl

/-! ### The tool -/

/-- Symbols are extracted from the tree of a text. -/
theorem of_extractFresh {treeSitter : TreeSitter} {content language : String}
    (h : SymbolExtractor.extractFresh treeSitter content language = .ok symbols) :
  ∃ root, ParserWrapper.parseFresh treeSitter content language = .ok root
    ∧ collectSymbols root content (categorizeLanguage language) = .ok symbols
  := by
  rw [SymbolExtractor.extractFresh, SymbolExtractor.extractSymbols] at h
  rw [ParserWrapper.parseFresh]
  rcases hparse : SymbolExtractor.new.parser.parse treeSitter content language with
    ⟨e | root, parser⟩
  · rw [hparse] at h
    cases h
  · rw [hparse] at h
    have hfresh : (ParserWrapper.new.parse treeSitter content language).1 = .ok root :=
      congrArg Prod.fst hparse
    exact ⟨root, hfresh, h⟩

/-- The walk over the children of a root comes to an import statement at the end of the path. -/
def RootImportSite (source : String) (lang : LangCategory) (root : Node) (path : Path) : Prop :=
  ∃ i child tail, root.children[i]? = some child ∧ path = i :: tail
    ∧ ImportSite source lang root.kind child tail

namespace ParseTools

/-- The answer of `get_imports`. -/
def importsAnswer (path : String) (imports : List CodeSymbol) : Json :=
  .object (SortedMap.collect
    [("path", .string path), ("imports", .array (symbolsToJson imports))])

variable {treeSitter : TreeSitter} {tools : ParseTools} {args : Json} {request : ParseRequest}

/-- A call on tools that are coherent and not poisoned answers with what new ones extract. -/
theorem handleGetImports_eq (task : Task) (hcoherent : tools.Coherent treeSitter)
    (hsound : ¬ tools.Poisoned) (hrequest : parseRequest args = .ok request) :
  (handleGetImports treeSitter task args tools).1
    = task.spawnBlocking
      (((SymbolExtractor.extractFresh treeSitter request.content request.language).mapErr
        (fun e => "symbol extraction error: " ++ e.message)).map (importsResult request))
  := by
  obtain ⟨extractor, -, hanswer⟩ :=
    answerSymbols_eq hcoherent hsound task request (importsResult request)
  rw [handleGetImports, forRequest, hrequest]
  dsimp only
  rw [hanswer]

/-- An answer has the imports of the forest. -/
theorem of_handleGetImports {task : Task} {answer : Json} (hcoherent : tools.Coherent treeSitter)
    (hsound : ¬ tools.Poisoned) (hrequest : parseRequest args = .ok request)
    (h : (handleGetImports treeSitter task args tools).1 = .ok answer) :
  ∃ symbols, SymbolExtractor.extractFresh treeSitter request.content request.language = .ok symbols
    ∧ answer = importsAnswer request.path (symbols.filter CodeSymbol.isImport)
  := by
  rw [handleGetImports_eq task hcoherent hsound hrequest] at h
  cases hsymbols : SymbolExtractor.extractFresh treeSitter request.content request.language with
  | error e =>
      rw [hsymbols] at h
      cases e with
      | err e => cases h
      | panicked => cases h
  | ok symbols =>
      rw [hsymbols] at h
      exact ⟨symbols, rfl, (Except.ok.inj h).symm⟩

end ParseTools

/-- `get_imports` answers with exactly the import statements that are below no other symbol, in the
order of the text and named by their texts, and the forest has no other import at any depth. -/
theorem imports_exact (treeSitter : TreeSitter) (task : Task) {tools : ParseTools} {args : Json}
    {request : ParseRequest} {answer : Json} (hcoherent : tools.Coherent treeSitter)
    (hsound : ¬ tools.Poisoned) (hrequest : parseRequest args = .ok request)
    (h : (ParseTools.handleGetImports treeSitter task args tools).1 = .ok answer) :
  ∃ root symbols sites,
    ParserWrapper.parseFresh treeSitter request.content request.language = .ok root
    ∧ SymbolExtractor.extractFresh treeSitter request.content request.language = .ok symbols
    ∧ answer = ParseTools.importsAnswer request.path
      ((everySymbol symbols).filter CodeSymbol.isImport)
    ∧ List.Forall₂ (ImportedAt request.content root)
      ((everySymbol symbols).filter CodeSymbol.isImport) sites
    ∧ sites.Pairwise Follows
    ∧ ∀ path, path ∈ sites
      ↔ RootImportSite request.content (categorizeLanguage request.language) root path
  := by
  obtain ⟨symbols, hsymbols, rfl⟩ := ParseTools.of_handleGetImports hcoherent hsound hrequest h
  obtain ⟨root, hparse, hcollect⟩ := of_extractFresh hsymbols
  let lang := categorizeLanguage request.language
  use root, symbols, childImportSites request.content lang root.kind 0 root.children, hparse,
    hsymbols
  rw [filter_everySymbol_isImport (holdsNoImport_collectChildSymbols hcollect)]
  refine ⟨rfl, ?_, ?_, ?_⟩
  · apply imports_collectChildSymbols _ hcollect
    intro j
    rw [Nat.zero_add]
  · apply (pairwise_childPositions 0 root.children).sublist (childImportSites_sublist _)
  · intro path
    rw [childImportSites_eq, mem_childPaths, RootImportSite]
    simp only [Nat.zero_add, mem_importSites]
    rfl

/-! ### An import within a statement -/

/-- An import below an `if`. -/
def importSource : String :=
  "if x: import os"

def importNode : Node :=
  .mk "import_statement" none ⟨6, 15, ⟨0, 6⟩, ⟨0, 15⟩⟩ []

def importRoot : Node :=
  .mk "module" none ⟨0, 15, ⟨0, 0⟩, ⟨0, 15⟩⟩
    [.mk "if_statement" none ⟨0, 15, ⟨0, 0⟩, ⟨0, 15⟩⟩
      [.mk "identifier" (some "condition") ⟨3, 4, ⟨0, 3⟩, ⟨0, 4⟩⟩ [],
        .mk "block" (some "consequence") ⟨6, 15, ⟨0, 6⟩, ⟨0, 15⟩⟩ [importNode]]]

/-- A Tree-sitter that parses every text as `importSource`. -/
def importTreeSitter : TreeSitter where
  setLanguage _ := .ok ()
  parse _ _ := some importRoot
  toSexp _ := ""

def importSymbol : CodeSymbol :=
  .mk "import os" .import_ ⟨0, 6, 0, 15⟩ none []

theorem extractFresh_importSource :
  SymbolExtractor.extractFresh importTreeSitter importSource "python" = .ok [importSymbol]
  := by
  have hbuild : symbolOfNode importSource .python importNode = .ok (some importSymbol) := by
    have htext : nodeText importSource importNode = some "import os" := by decide +kernel
    have hname : truncateImport "import os" = .ok "import os" := by rfl
    have hkind : nodeKindToSymbol importNode.kind .python = some .import_ := rfl
    rw [symbolOfNode_of_kind hkind, buildSymbol_of_statement (Or.inl rfl) htext, hname]
    rfl
  have hcollect : collectSymbols importRoot importSource .python = .ok [importSymbol] := by
    rw [importNode] at hbuild
    simp only [collectSymbols, importRoot, importNode, Node.children, Node.kind,
      collectChildSymbols, collectNodeSymbols, hbuild]
    rfl
  rw [← hcollect]
  rfl

/-- The arguments of a call on `importSource`. -/
def importArgs : Json :=
  .object [("content", .string importSource), ("language", .string "python")]

/-- The import is found. -/
theorem imports_exact_if :
  ∃ root symbols sites,
    ParserWrapper.parseFresh importTreeSitter importSource "python" = .ok root
    ∧ SymbolExtractor.extractFresh importTreeSitter importSource "python" = .ok symbols
    ∧ ParseTools.importsAnswer "" [importSymbol] = ParseTools.importsAnswer ""
      ((everySymbol symbols).filter CodeSymbol.isImport)
    ∧ List.Forall₂ (ImportedAt importSource root)
      ((everySymbol symbols).filter CodeSymbol.isImport) sites
    ∧ sites.Pairwise Follows
    ∧ ∀ path, path ∈ sites ↔ RootImportSite importSource .python root path
  := by
  have hanswer : (ParseTools.handleGetImports importTreeSitter ⟨0, ""⟩ importArgs .new).1
      = .ok (ParseTools.importsAnswer "" [importSymbol]) := by
    have hrequest : parseRequest importArgs = .ok ⟨"", importSource, "python"⟩ := rfl
    rw [ParseTools.handleGetImports_eq ⟨0, ""⟩ ParseTools.coherent_new ParseTools.not_poisoned_new
      hrequest, extractFresh_importSource]
    rfl
  exact @imports_exact importTreeSitter ⟨0, ""⟩ .new importArgs ⟨"", importSource, "python"⟩ _
    ParseTools.coherent_new ParseTools.not_poisoned_new rfl hanswer

end OrchestraRag
