import OrchestraRag.Parser.Extractor

/-!
# What the walk does at a node

A node becomes the symbol of an import or export statement, becomes the symbol of a definition,
becomes a Python variable, or is descended into (`NodeWalk`).
-/

namespace OrchestraRag

variable {source : String} {lang : LangCategory} {parentKind : String} {node : Node}
  {kind : SymbolKind} {sym : CodeSymbol} {symbols : List CodeSymbol}

/-- The kind is that of an import or export statement. -/
abbrev IsStatement (kind : SymbolKind) : Prop :=
  kind = .import_ ∨ kind = .export_

/-! ### Symbols that are built -/

/-- The member of a body becomes a symbol of a nested kind. -/
def memberSymbol (source : String) (lang : LangCategory) (child : Node) :
    Outcome ParserError (Option CodeSymbol) :=
  match classifyNestedNode child.kind lang with
  | some kind => buildSymbol source lang child kind
  | none => pure none

/-- A symbol is built from its name and its members. -/
theorem buildSymbol_eq (source : String) (lang : LangCategory) (node : Node)
    (kind : SymbolKind) :
  buildSymbol source lang node kind = (do
    match ← extractName source node kind lang with
    | none => pure none
    | some name =>
        let children ←
          if isContainer kind then
            (bodyOf node).children.filterMapM (memberSymbol source lang)
          else pure []
        pure (some (.mk name kind (.ofRange node.range) (extractDetail source node kind)
          children)))
  := by
  rw [buildSymbol]
  congr 1
  funext name
  cases name with
  | none => rfl
  | some name =>
      dsimp only
      rw [List.filterMapM_subtype (g := memberSymbol source lang) (fun _ _ => rfl),
        List.unattach_attach]

/-- What a symbol is built from. -/
theorem of_buildSymbol (h : buildSymbol source lang node kind = .ok (some sym)) :
  extractName source node kind lang = .ok (some sym.name) ∧ sym.kind = kind
    ∧ sym.range = .ofRange node.range
    ∧ (isContainer kind = true →
      (bodyOf node).children.filterMapM (memberSymbol source lang) = .ok sym.children)
    ∧ (isContainer kind = false → sym.children = [])
  := by
  rw [buildSymbol_eq] at h
  obtain ⟨name, hname, h⟩ := Outcome.bind_eq_ok.mp h
  cases name with
  | none => cases h
  | some name =>
      dsimp only at h
      split at h
      case isTrue hcontainer =>
          obtain ⟨children, hchildren, h⟩ := Outcome.bind_eq_ok.mp h
          obtain rfl := Option.some.inj (Except.ok.inj h)
          refine ⟨hname, rfl, rfl, fun _ => hchildren, ?_⟩
          intro hnot
          rw [hcontainer] at hnot
          cases hnot
      case isFalse hcontainer =>
          obtain ⟨children, hchildren, h⟩ := Outcome.bind_eq_ok.mp h
          obtain rfl := Except.ok.inj hchildren
          obtain rfl := Option.some.inj (Except.ok.inj h)
          refine ⟨hname, rfl, rfl, ?_, fun _ => rfl⟩
          intro hyes
          apply absurd hyes hcontainer

/-! ### Definitions -/

/-- The name of a definition, a node that becomes the symbol of no statement. -/
def definitionName (source : String) (lang : LangCategory) (node : Node) : Option String :=
  match nodeKindToSymbol node.kind lang with
  | some kind => if IsStatement kind then none else extractDeclaredName source node lang
  | none => none

theorem of_definitionName {name : String} (h : definitionName source lang node = some name) :
  ∃ kind, nodeKindToSymbol node.kind lang = some kind ∧ ¬ IsStatement kind
    ∧ extractDeclaredName source node lang = some name
  := by
  rw [definitionName] at h
  split at h
  case h_1 kind hkind =>
      split at h
      · cases h
      case isFalse hdefinition => exact ⟨kind, hkind, hdefinition, h⟩
  case h_2 => cases h

theorem definitionName_eq (hkind : nodeKindToSymbol node.kind lang = some kind)
    (hdefinition : ¬ IsStatement kind) :
  definitionName source lang node = extractDeclaredName source node lang
  := by
  rw [definitionName, hkind]
  apply if_neg hdefinition

/-- A definition becomes a symbol of its name and kind. -/
theorem buildSymbol_of_definition {name : String} (hdefinition : ¬ IsStatement kind)
    (hname : extractDeclaredName source node lang = some name) :
  ∃ sym, buildSymbol source lang node kind = .ok (some sym) ∧ sym.name = name ∧ sym.kind = kind
  := by
  obtain ⟨symbol, hsymbol, hsome⟩ := buildSymbol_of_not_import source lang node hdefinition
  rw [hname] at hsome
  obtain ⟨sym, rfl⟩ := Option.isSome_iff_exists.mp hsome
  obtain ⟨hextract, hkind, -⟩ := of_buildSymbol hsymbol
  rw [extractName, if_neg hdefinition, hname] at hextract
  use sym, hsymbol, (Option.some.inj (Except.ok.inj hextract)).symm, hkind

theorem not_buildSymbol_of_none (hdefinition : ¬ IsStatement kind)
    (hname : extractDeclaredName source node lang = none) :
  buildSymbol source lang node kind = .ok none
  := by
  obtain ⟨symbol, hsymbol, hsome⟩ := buildSymbol_of_not_import source lang node hdefinition
  rw [hname] at hsome
  rw [hsymbol, Option.isSome_eq_false_iff.mp hsome |> Option.isNone_iff_eq_none.mp]

/-! ### The walk at a node -/

/-- What the walk makes of a node. -/
inductive NodeWalk (source : String) (lang : LangCategory) (parentKind : String) (node : Node) :
    List CodeSymbol → Prop
  | statement {text : String} {sym : CodeSymbol} :
      statementText source lang node = some text → IsStatement sym.kind →
      NodeWalk source lang parentKind node [sym]
  | definition {kind : SymbolKind} {sym : CodeSymbol} :
      statementText source lang node = none → nodeKindToSymbol node.kind lang = some kind →
      ¬ IsStatement kind → buildSymbol source lang node kind = .ok (some sym) →
      definitionName source lang node = some sym.name → sym.kind = kind →
      NodeWalk source lang parentKind node [sym]
  | assignment {name : String} :
      statementText source lang node = none → definitionName source lang node = none →
      assignedName source lang parentKind node = some name →
      NodeWalk source lang parentKind node [.mk name .variable_ (.ofRange node.range) none []]
  | descend {symbols : List CodeSymbol} :
      statementText source lang node = none → definitionName source lang node = none →
      assignedName source lang parentKind node = none →
      collectChildSymbols source lang node.kind node.children = .ok symbols →
      NodeWalk source lang parentKind node symbols

/-- The symbol of a node that is no definition is that of a statement. -/
theorem isStatement_of_symbolOfNode (hname : definitionName source lang node = none)
    (h : symbolOfNode source lang node = .ok (some sym)) :
  (∃ text, statementText source lang node = some text) ∧ IsStatement sym.kind
  := by
  rw [symbolOfNode] at h
  cases hkind : nodeKindToSymbol node.kind lang with
  | none =>
      rw [hkind] at h
      cases h
  | some kind =>
      rw [hkind] at h
      obtain ⟨hextract, hsymkind, -⟩ := of_buildSymbol h
      by_cases hstatement : IsStatement kind
      · rw [hsymkind]
        refine ⟨?_, hstatement⟩
        rw [extractName, if_pos hstatement] at hextract
        rw [statementText, hkind]
        simp only [if_pos hstatement]
        cases htext : nodeText source node with
        | none =>
            rw [htext] at hextract
            cases hextract
        | some text => exact ⟨text, rfl⟩
      · rw [definitionName_eq hkind hstatement] at hname
        cases (not_buildSymbol_of_none hstatement hname).symm.trans h

theorem symbolOfNode_of_kind (hkind : nodeKindToSymbol node.kind lang = some kind) :
  symbolOfNode source lang node = buildSymbol source lang node kind
  := by
  rw [symbolOfNode, hkind]

/-- No definition is a statement. -/
theorem statementText_of_definition {name : String}
    (h : definitionName source lang node = some name) :
  statementText source lang node = none
  := by
  obtain ⟨kind, hkind, hdefinition, -⟩ := of_definitionName h
  rw [statementText, hkind]
  apply if_neg hdefinition

theorem nodeWalk_of_collect
    (h : collectNodeSymbols source lang parentKind node = .ok symbols) :
  NodeWalk source lang parentKind node symbols
  := by
  obtain ⟨nodeKind, fieldName, range, children⟩ := node
  rw [collectNodeSymbols] at h
  obtain ⟨symbol, hsymbol, h⟩ := Outcome.bind_eq_ok.mp h
  cases hname : definitionName source lang (.mk nodeKind fieldName range children) with
  | none =>
      cases symbol with
      | none =>
          have hstatement : statementText source lang (.mk nodeKind fieldName range children)
              = none := by
            by_contra hsome
            obtain ⟨text, htext⟩ := Option.ne_none_iff_exists'.mp hsome
            obtain ⟨hcut, hpanic⟩ := symbolOfNode_of_statementText htext
            by_cases hcuttable : Cuttable text
            · obtain ⟨sym, hsym⟩ := hcut hcuttable
              cases hsym.symm.trans hsymbol
            · cases (hpanic hcuttable).symm.trans hsymbol
          dsimp only at h
          split at h
          case h_1 name hassigned =>
              obtain rfl := Except.ok.inj h
              apply NodeWalk.assignment hstatement hname hassigned
          case h_2 hassigned => apply NodeWalk.descend hstatement hname hassigned h
      | some sym =>
          obtain rfl := Except.ok.inj h
          obtain ⟨⟨text, htext⟩, hkind⟩ := isStatement_of_symbolOfNode hname hsymbol
          apply NodeWalk.statement htext hkind
  | some name =>
      obtain ⟨kind, hkind, hdefinition, hdeclared⟩ := of_definitionName hname
      obtain ⟨sym, hbuild, rfl, hsymkind⟩ := buildSymbol_of_definition hdefinition hdeclared
      rw [symbolOfNode_of_kind hkind, hbuild] at hsymbol
      obtain rfl := Except.ok.inj hsymbol
      obtain rfl := Except.ok.inj h
      apply NodeWalk.definition (statementText_of_definition hname) hkind hdefinition hbuild hname
        hsymkind

/-- A definition becomes its symbol, wherever it is. -/
theorem collectNodeSymbols_of_build (hkind : nodeKindToSymbol node.kind lang = some kind)
    (hbuild : buildSymbol source lang node kind = .ok (some sym)) :
  collectNodeSymbols source lang parentKind node = .ok [sym]
  := by
  obtain ⟨nodeKind, fieldName, range, children⟩ := node
  rw [collectNodeSymbols, symbolOfNode_of_kind hkind, hbuild]
  rfl

/-! ### The walk over nodes -/

/-- What the walk makes of a node is among what it makes of all. -/
theorem of_mem_collectChildSymbols {nodes : List Node} (hmem : node ∈ nodes)
    (h : collectChildSymbols source lang parentKind nodes = .ok symbols) :
  ∃ part, collectNodeSymbols source lang parentKind node = .ok part ∧ part ⊆ symbols
  := by
  induction nodes generalizing symbols with
  | nil => cases hmem
  | cons first nodes ih =>
      rw [collectChildSymbols] at h
      obtain ⟨part, hpart, h⟩ := Outcome.bind_eq_ok.mp h
      obtain ⟨rest, hrest, h⟩ := Outcome.bind_eq_ok.mp h
      obtain rfl := Except.ok.inj h
      rcases List.mem_cons.mp hmem with rfl | hmem
      · use part, hpart
        apply List.subset_append_left
      · obtain ⟨part', hpart', hsub⟩ := ih hmem hrest
        use part', hpart'
        intro sym hsym
        apply List.mem_append_right _ (hsub hsym)

end OrchestraRag
