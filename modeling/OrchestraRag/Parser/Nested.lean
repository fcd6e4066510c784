import Mathlib.Data.Prod.Lex
import OrchestraRag.Library.Nesting
import OrchestraRag.Parser.Sites

/-!
# Nested symbols

The forest of a well-nested tree is well nested.  The traced walk is the walk with the path of
the node that each symbol is built from (`erase_traceSymbols`).  Members are built from nodes
below that of their container, and siblings from nodes of which one comes before the other
(`Planted`), so that ranges and nodes of the symbols are told by their paths.
-/

namespace OrchestraRag

/-! ### Ranges -/

/-- The interval of a range, lines before columns. -/
def TextRange.span (range : TextRange) : Span (ℕ ×ₗ ℕ) where
  start := toLex (range.startLine, range.startColumn)
  stop := toLex (range.endLine, range.endColumn)

def Node.span (node : Node) : Span (ℕ ×ₗ ℕ) :=
  (TextRange.ofRange node.range).span

def CodeSymbol.span (sym : CodeSymbol) : Span (ℕ ×ₗ ℕ) :=
  sym.range.span

/-- The range of every node of the tree contains those of its children, which are in order and
do not overlap. -/
def WellNested (root : Node) : Prop :=
  ∀ path node, root.follow path = some node →
    (∀ child ∈ node.children, child.span.Within node.span)
      ∧ node.children.Pairwise (fun a b => a.span.Precedes b.span)

/-- The ranges of the symbols nested in a symbol are inside its range, and siblings are in order
and do not overlap. -/
inductive NestedForest : List CodeSymbol → Prop
  | mk {forest : List CodeSymbol} :
      forest.Pairwise (fun a b => a.span.Precedes b.span) →
      (∀ sym ∈ forest, ∀ child ∈ sym.children, child.span.Within sym.span) →
      (∀ sym ∈ forest, NestedForest sym.children) →
      NestedForest forest

variable {source : String} {lang : LangCategory} {root node : Node}

theorem Node.follow_concat (path : Path) (i : ℕ) (node : Node) :
  node.follow (path ++ [i]) = (node.follow path).bind (fun above => above.children[i]?)
  := by
  rw [Node.follow_append]
  apply congrArg
  funext above
  apply Node.follow_singleton

/-- A tree is well nested when its children are, inside its range and in order. -/
theorem wellNested_mk {kind : String} {fieldName : Option String} {range : Range}
    {children : List Node} :
  WellNested (.mk kind fieldName range children)
    ↔ (∀ child ∈ children, child.span.Within (TextRange.ofRange range).span)
      ∧ children.Pairwise (fun a b => a.span.Precedes b.span)
      ∧ ∀ child ∈ children, WellNested child
  := by
  constructor
  · intro h
    obtain ⟨hinside, hordered⟩ := h [] _ rfl
    use hinside, hordered
    intro child hmem path below hbelow
    obtain ⟨i, hchild⟩ := List.mem_iff_getElem?.mp hmem
    apply h (i :: path) below
    rw [Node.follow, Node.children, hchild]
    apply hbelow
  · rintro ⟨hinside, hordered, hchildren⟩ path below hbelow
    cases path with
    | nil =>
        obtain rfl := Option.some.inj hbelow
        exact ⟨hinside, hordered⟩
    | cons i path =>
        rw [Node.follow] at hbelow
        obtain ⟨child, hchild, hbelow⟩ := Option.bind_eq_some_iff.mp hbelow
        apply hchildren child (List.mem_of_getElem? hchild) path below hbelow

/-- The ranges of a well-nested tree are nested by their paths. -/
theorem WellNested.nested (h : WellNested root) :
  Nested (fun path => (root.follow path).map Node.span)
  := by
  constructor
  · intro path i a ha
    obtain ⟨child, hchild, rfl⟩ := Option.map_eq_some_iff.mp ha
    rw [Node.follow_concat] at hchild
    obtain ⟨node, hnode, hchild⟩ := Option.bind_eq_some_iff.mp hchild
    use node.span
    constructor
    · rw [hnode]
      rfl
    · apply (h path node hnode).1 child (List.mem_of_getElem? hchild)
  · intro path i j a b hlt ha hb
    obtain ⟨first, hfirst, rfl⟩ := Option.map_eq_some_iff.mp ha
    obtain ⟨second, hsecond, rfl⟩ := Option.map_eq_some_iff.mp hb
    rw [Node.follow_concat] at hfirst hsecond
    obtain ⟨node, hnode, hfirst⟩ := Option.bind_eq_some_iff.mp hfirst
    rw [hnode, Option.bind_some] at hsecond
    obtain ⟨hi, rfl⟩ := List.getElem?_eq_some_iff.mp hfirst
    obtain ⟨hj, rfl⟩ := List.getElem?_eq_some_iff.mp hsecond
    apply List.pairwise_iff_getElem.mp (h path node hnode).2 i j hi hj hlt

/-! ### The body of a container -/

/-- The index of the child that `findBodyNode` finds. -/
def bodyIndex (node : Node) : Option ℕ :=
  node.children.findIdx? (fun child => child.fieldName == some "body")
    <|> node.children.findIdx? (fun child => child.kind == "declaration_list")
    <|> node.children.findIdx? (fun child => child.kind == "class_body")
    <|> node.children.findIdx? (fun child => child.kind == "block")

/-- The path to the node whose children are the members of a container. -/
def bodyPath (node : Node) : Path :=
  (bodyIndex node).toList

theorem bind_findIdx?_orElse {α : Type} (p : α → Bool) (as : List α) (o : Option ℕ) :
  (as.findIdx? p <|> o).bind (fun i => as[i]?) = (as.find? p <|> o.bind (fun i => as[i]?))
  := by
  have hfind := bind_findIdx? p as
  cases hindex : as.findIdx? p with
  | none =>
      rw [hindex, Option.bind_none] at hfind
      rw [← hfind]
      rfl
  | some i =>
      have hlt := (List.findIdx?_eq_some_iff_getElem.mp hindex).1
      rw [hindex, Option.bind_some, List.getElem?_eq_getElem hlt] at hfind
      rw [← hfind]
      apply List.getElem?_eq_getElem hlt

theorem bind_bodyIndex (node : Node) :
  (bodyIndex node).bind (fun i => node.children[i]?) = findBodyNode node
  := by
  rw [bodyIndex, bind_findIdx?_orElse, bind_findIdx?_orElse, bind_findIdx?_orElse,
    bind_findIdx?]
  rfl

theorem lt_of_findIdx? {α : Type} {p : α → Bool} {as : List α} {i : ℕ}
    (h : as.findIdx? p = some i) :
  i < as.length
  := (List.findIdx?_eq_some_iff_getElem.mp h).1

theorem lt_of_bodyIndex {i : ℕ} (h : bodyIndex node = some i) :
  i < node.children.length
  := by
  rw [bodyIndex] at h
  simp only [Option.orElse_eq_orElse, Option.orElse_eq_or, Option.or_eq_some_iff] at h
  rcases h with h | ⟨-, h | ⟨-, h | ⟨-, h⟩⟩⟩
  · apply lt_of_findIdx? h
  · apply lt_of_findIdx? h
  · apply lt_of_findIdx? h
  · apply lt_of_findIdx? h

theorem follow_bodyPath (node : Node) :
  node.follow (bodyPath node) = some (bodyOf node)
  := by
  rw [bodyPath, bodyOf, ← bind_bodyIndex]
  cases hindex : bodyIndex node with
  | none => rfl
  | some i =>
      rw [Option.toList_some, Node.follow_singleton, Option.bind_some,
        List.getElem?_eq_getElem (lt_of_bodyIndex hindex)]
      rfl

/-! ### The traced walk -/

/-- A symbol with the path of the node that it is built from, and the symbols nested in it with
theirs. -/
inductive TracedSymbol where
  | mk (path : Path) (name : String) (kind : SymbolKind) (range : TextRange)
      (detail : Option String) (children : List TracedSymbol)

namespace TracedSymbol

def path : TracedSymbol → Path
  | .mk path _ _ _ _ _ => path

def children : TracedSymbol → List TracedSymbol
  | .mk _ _ _ _ _ children => children

mutual

/-- The symbol without the paths. -/
def erase : TracedSymbol → CodeSymbol
  | .mk _ name kind range detail children => .mk name kind range detail (eraseAll children)

def eraseAll : List TracedSymbol → List CodeSymbol
  | [] => []
  | sym :: symbols => sym.erase :: eraseAll symbols

end

mutual

/-- A symbol and those nested in it, at any depth. -/
def subtree : TracedSymbol → List TracedSymbol
  | .mk path name kind range detail children =>
      .mk path name kind range detail children :: every children

/-- The symbols of a forest, at any depth. -/
def every : List TracedSymbol → List TracedSymbol
  | [] => []
  | sym :: symbols => sym.subtree ++ every symbols

end

theorem eraseAll_eq_map (symbols : List TracedSymbol) :
  eraseAll symbols = symbols.map erase
  := by
  induction symbols with
  | nil => rfl
  | cons sym symbols ih => rw [eraseAll, List.map_cons, ih]

theorem every_eq_flatMap (symbols : List TracedSymbol) :
  every symbols = symbols.flatMap subtree
  := by
  induction symbols with
  | nil => rfl
  | cons sym symbols ih => rw [every, List.flatMap_cons, ih]

theorem children_erase (sym : TracedSymbol) :
  sym.erase.children = sym.children.map erase
  := by
  obtain ⟨path, name, kind, range, detail, children⟩ := sym
  rw [erase, ← eraseAll_eq_map]
  rfl

theorem subtree_eq_cons (sym : TracedSymbol) :
  sym.subtree = sym :: every sym.children
  := by
  obtain ⟨path, name, kind, range, detail, children⟩ := sym
  rw [subtree]
  rfl

end TracedSymbol

/-- `buildSymbol` of the node at the end of the path. -/
def traceSymbol (source : String) (lang : LangCategory) (path : Path) (node : Node)
    (kind : SymbolKind) : Outcome ParserError (Option TracedSymbol) := do
  match ← extractName source node kind lang with
  | none => pure none
  | some name =>
      let detail := extractDetail source node kind
      let children ←
        if isContainer kind then
          (bodyOf node).children.zipIdx.attach.filterMapM fun child =>
            match classifyNestedNode child.val.1.kind lang with
            | some kind =>
                traceSymbol source lang (path ++ bodyPath node ++ [child.val.2]) child.val.1 kind
            | none => pure none
        else pure []
      pure (some (.mk path name kind (.ofRange node.range) detail children))
termination_by node
decreasing_by
  apply sizeOf_lt_of_mem_bodyOf (List.fst_mem_of_mem_zipIdx child.property)

/-- `symbolOfNode` of the node at the end of the path. -/
def traceSymbolOfNode (source : String) (lang : LangCategory) (path : Path) (node : Node) :
    Outcome ParserError (Option TracedSymbol) :=
  match nodeKindToSymbol node.kind lang with
  | some kind => traceSymbol source lang path node kind
  | none => pure none

mutual

/-- `collectNodeSymbols` of the node at the end of the path. -/
def traceNodeSymbols (source : String) (lang : LangCategory) (parentKind : String)
    (path : Path) : Node → Outcome ParserError (List TracedSymbol)
  | .mk kind fieldName range children => do
      let node := Node.mk kind fieldName range children
      match ← traceSymbolOfNode source lang path node with
      | some sym => pure [sym]
      | none =>
          match assignedName source lang parentKind node with
          | some name => pure [.mk path name .variable_ (.ofRange range) none []]
          | none => traceChildSymbols source lang kind path 0 children

/-- `collectChildSymbols` of children of the node at the end of the path, from an index on. -/
def traceChildSymbols (source : String) (lang : LangCategory) (parentKind : String)
    (path : Path) (i : ℕ) : List Node → Outcome ParserError (List TracedSymbol)
  | [] => pure []
  | node :: nodes => do
      let symbols ← traceNodeSymbols source lang parentKind (path ++ [i]) node
      let rest ← traceChildSymbols source lang parentKind path (i + 1) nodes
      pure (symbols ++ rest)

end

/-- `collectSymbols`, with the path of the node that each symbol is built from. -/
def traceSymbols (root : Node) (source : String) (lang : LangCategory) :
    Outcome ParserError (List TracedSymbol) :=
  traceChildSymbols source lang root.kind [] 0 root.children

/-- What a member of the body of the node at the end of the path becomes. -/
def traceMember (source : String) (lang : LangCategory) (path : Path) (node : Node)
    (child : Node × ℕ) : Outcome ParserError (Option TracedSymbol) :=
  match classifyNestedNode child.1.kind lang with
  | some kind => traceSymbol source lang (path ++ bodyPath node ++ [child.2]) child.1 kind
  | none => pure none

theorem traceSymbol_eq (source : String) (lang : LangCategory) (path : Path) (node : Node)
    (kind : SymbolKind) :
  traceSymbol source lang path node kind = (do
    match ← extractName source node kind lang with
    | none => pure none
    | some name =>
        let children ←
          if isContainer kind then
            (bodyOf node).children.zipIdx.filterMapM (traceMember source lang path node)
          else pure []
        pure (some (.mk path name kind (.ofRange node.range) (extractDetail source node kind)
          children)))
  := by
  rw [traceSymbol]
  congr 1
  funext name
  cases name with
  | none => rfl
  | some name =>
      dsimp only
      rw [List.filterMapM_subtype (g := traceMember source lang path node) (fun _ _ => rfl),
        List.unattach_attach]

theorem erase_traceSymbol (source : String) (lang : LangCategory) (path : Path) (node : Node)
    (kind : SymbolKind) :
  Option.map TracedSymbol.erase <$> traceSymbol source lang path node kind
    = buildSymbol source lang node kind
  := by
  have ih (child : Node) (h : child ∈ (bodyOf node).children) (i : ℕ) :
      Option.map TracedSymbol.erase <$> traceMember source lang path node (child, i)
        = memberSymbol source lang child := by
    rw [traceMember, memberSymbol]
    cases classifyNestedNode child.kind lang with
    | none => rfl
    | some kind => apply erase_traceSymbol
  have hmembers :
      List.map TracedSymbol.erase
        <$> (bodyOf node).children.zipIdx.filterMapM (traceMember source lang path node)
        = (bodyOf node).children.filterMapM (memberSymbol source lang) :=
    Outcome.filterMapM_zipIdx ih
  rw [traceSymbol_eq, buildSymbol_eq, ← hmembers, map_bind]
  congr 1
  funext name
  cases name with
  | none => rfl
  | some name =>
      dsimp only
      cases isContainer kind with
      | true =>
          rw [if_pos rfl, if_pos rfl, map_bind, bind_map_left]
          simp only [map_pure, Option.map_some, TracedSymbol.erase, TracedSymbol.eraseAll_eq_map]
      | false => rfl
termination_by node
decreasing_by
  apply sizeOf_lt_of_mem_bodyOf h
theorem erase_traceSymbolOfNode (source : String) (lang : LangCategory) (path : Path)
    (node : Node) :
  Option.map TracedSymbol.erase <$> traceSymbolOfNode source lang path node
    = symbolOfNode source lang node
  := by
  rw [traceSymbolOfNode, symbolOfNode]
  cases nodeKindToSymbol node.kind lang with
  | none => rfl
  | some kind => apply erase_traceSymbol

mutual

theorem erase_traceNodeSymbols (source : String) (lang : LangCategory) (parentKind : String)
    (path : Path) :
  ∀ node, List.map TracedSymbol.erase <$> traceNodeSymbols source lang parentKind path node
    = collectNodeSymbols source lang parentKind node
  | .mk kind fieldName range children => by
      rw [traceNodeSymbols, collectNodeSymbols, ← erase_traceSymbolOfNode source lang path, map_bind, bind_map_left]
      congr 1
      funext symbol
      cases symbol with
      | some sym => rfl
      | none =>
          dsimp only [Option.map_none]
          cases assignedName source lang parentKind (.mk kind fieldName range children) with
          | some name => rfl
          | none => apply erase_traceChildSymbols source lang kind path 0 children

theorem erase_traceChildSymbols (source : String) (lang : LangCategory) (parentKind : String)
    (path : Path) (i : ℕ) :
  ∀ nodes, List.map TracedSymbol.erase <$> traceChildSymbols source lang parentKind path i nodes
    = collectChildSymbols source lang parentKind nodes
  | [] => by
      rw [traceChildSymbols, collectChildSymbols]
      rfl
  | node :: nodes => by
      rw [traceChildSymbols, collectChildSymbols,
        ← erase_traceNodeSymbols source lang parentKind (path ++ [i]) node,
        ← erase_traceChildSymbols source lang parentKind path (i + 1) nodes, map_bind,
        bind_map_left]
      congr 1
      funext symbols
      rw [map_bind, bind_map_left]
      congr 1
      funext rest
      rw [map_pure, List.map_append]

end

/-- The traced walk is the walk. -/
theorem erase_traceSymbols (root : Node) (source : String) (lang : LangCategory) :
  List.map TracedSymbol.erase <$> traceSymbols root source lang = collectSymbols root source lang
  := by
  apply erase_traceChildSymbols

/-! ### Where symbols are built -/

/-- The node at the end of the path gives rise to the symbol: it is built from the node, or is
that of the Python variable that the node assigns to. -/
def GivesRise (source : String) (lang : LangCategory) (root : Node) (path : Path)
    (sym : CodeSymbol) : Prop :=
  ∃ node, root.follow path = some node
    ∧ ((∃ kind, buildSymbol source lang node kind = .ok (some sym))
      ∨ ∃ parentKind name, assignedName source lang parentKind node = some name
        ∧ sym = .mk name .variable_ (.ofRange node.range) none [])

/-- A symbol has the range of the node that gives rise to it. -/
theorem GivesRise.span {path : Path} {sym : CodeSymbol}
    (h : GivesRise source lang root path sym) :
  (root.follow path).map Node.span = some sym.span
  := by
  obtain ⟨node, hnode, ⟨kind, hbuild⟩ | ⟨parentKind, name, -, rfl⟩⟩ := h
  · obtain ⟨-, -, hrange, -⟩ := of_buildSymbol hbuild
    rw [hnode, CodeSymbol.span, hrange]
    rfl
  · rw [hnode]
    rfl

/-- The node at the path of the symbol gives rise to it, and those nested in it come from nodes
below, of which each comes before the next. -/
inductive Planted (source : String) (lang : LangCategory) (root : Node) : TracedSymbol → Prop
  | mk {sym : TracedSymbol} :
      GivesRise source lang root sym.path sym.erase →
      (∀ child ∈ sym.children, Below sym.path child.path) →
      sym.children.Pairwise (fun a b => Before a.path b.path) →
      (∀ child ∈ sym.children, Planted source lang root child) →
      Planted source lang root sym

/-- What the members of the body of the node at the end of the path become. -/
def traceMembers (source : String) (lang : LangCategory) (path : Path) (node : Node) :
    List TracedSymbol :=
  (bodyOf node).children.zipIdx.filterMap (fun child =>
    (traceMember source lang path node child).toOption.join)

/-- A traced symbol has the path it is traced at, and its children are members of the body. -/
theorem of_traceSymbol {path : Path} {kind : SymbolKind} {sym : TracedSymbol}
    (h : traceSymbol source lang path node kind = .ok (some sym)) :
  sym.path = path ∧ sym.children.Sublist (traceMembers source lang path node)
  := by
  rw [traceSymbol_eq] at h
  obtain ⟨name, -, h⟩ := Outcome.bind_eq_ok.mp h
  cases name with
  | none => cases h
  | some name =>
      dsimp only at h
      split at h
      · obtain ⟨children, hchildren, h⟩ := Outcome.bind_eq_ok.mp h
        obtain rfl := Option.some.inj (Except.ok.inj h)
        use rfl
        rw [traceMembers, ← Outcome.eq_filterMap_of_filterMapM hchildren]
        apply List.Sublist.refl
      · obtain ⟨children, hchildren, h⟩ := Outcome.bind_eq_ok.mp h
        obtain rfl := Except.ok.inj hchildren
        obtain rfl := Option.some.inj (Except.ok.inj h)
        use rfl
        apply List.nil_sublist

theorem of_traceMember {path : Path} {child : Node × ℕ} {sym : TracedSymbol}
    (h : (traceMember source lang path node child).toOption.join = some sym) :
  ∃ kind, traceSymbol source lang (path ++ bodyPath node ++ [child.2]) child.1 kind
    = .ok (some sym)
  := by
  rw [Outcome.toOption_join_eq_some, traceMember] at h
  cases hkind : classifyNestedNode child.1.kind lang with
  | none =>
      rw [hkind] at h
      cases h
  | some kind =>
      rw [hkind] at h
      exact ⟨kind, h⟩

theorem of_mem_traceMembers {path : Path} {sym : TracedSymbol}
    (h : sym ∈ traceMembers source lang path node) :
  ∃ child i kind, (bodyOf node).children[i]? = some child
    ∧ traceSymbol source lang (path ++ bodyPath node ++ [i]) child kind = .ok (some sym)
  := by
  rw [traceMembers, List.mem_filterMap] at h
  obtain ⟨⟨child, i⟩, hmem, hsym⟩ := h
  obtain ⟨kind, hsym⟩ := of_traceMember hsym
  exact ⟨child, i, kind, List.mem_zipIdx_iff_getElem?.mp hmem, hsym⟩

/-- Members come one before the next. -/
theorem pairwise_traceMembers (source : String) (lang : LangCategory) (path : Path)
    (node : Node) :
  (traceMembers source lang path node).Pairwise (fun a b => Before a.path b.path)
  := by
  rw [traceMembers, List.pairwise_filterMap]
  have hindices : (bodyOf node).children.zipIdx.Pairwise (fun a b => a.2 < b.2) := by
    rw [← List.pairwise_map, List.zipIdx_map_snd]
    exact List.pairwise_lt_range'
  apply hindices.imp
  intro a b hlt first hfirst second hsecond
  obtain ⟨kind, hfirst⟩ := of_traceMember hfirst
  obtain ⟨kind', hsecond⟩ := of_traceMember hsecond
  use path ++ bodyPath node, a.2, b.2, hlt
  rw [(of_traceSymbol hfirst).1, (of_traceSymbol hsecond).1]
  constructor
  · rfl
  · rfl

/-- The member at an index of the body. -/
theorem follow_member {path : Path} {child : Node} {i : ℕ} (hnode : root.follow path = some node)
    (hchild : (bodyOf node).children[i]? = some child) :
  root.follow (path ++ bodyPath node ++ [i]) = some child
  := by
  rw [Node.follow_concat, Node.follow_append, hnode, Option.bind_some, follow_bodyPath]
  apply hchild

theorem planted_traceSymbol {path : Path} {node : Node} {kind : SymbolKind} {sym : TracedSymbol}
    (hnode : root.follow path = some node)
    (h : traceSymbol source lang path node kind = .ok (some sym)) :
  Planted source lang root sym
  := by
  obtain ⟨hpath, hchildren⟩ := of_traceSymbol h
  have hbuild := erase_traceSymbol source lang path node kind
  rw [h] at hbuild
  apply Planted.mk
  · rw [hpath]
    exact ⟨node, hnode, Or.inl ⟨kind, hbuild.symm⟩⟩
  · intro child hchild
    obtain ⟨member, i, kind', hmember, htrace⟩ := of_mem_traceMembers (hchildren.subset hchild)
    rw [hpath, (of_traceSymbol htrace).1]
    apply Below.of_isPrefix (List.prefix_append path (bodyPath node))
    use i
  · apply (pairwise_traceMembers source lang path node).sublist hchildren
  · intro child hchild
    obtain ⟨member, i, kind', hmember, htrace⟩ := of_mem_traceMembers (hchildren.subset hchild)
    have hlt := sizeOf_lt_of_mem_bodyOf (List.mem_of_getElem? hmember)
    apply planted_traceSymbol (follow_member hnode hmember) htrace
termination_by node

theorem of_traceSymbolOfNode {path : Path} {sym : TracedSymbol}
    (h : traceSymbolOfNode source lang path node = .ok (some sym)) :
  ∃ kind, traceSymbol source lang path node kind = .ok (some sym)
  := by
  rw [traceSymbolOfNode] at h
  cases hkind : nodeKindToSymbol node.kind lang with
  | none =>
      rw [hkind] at h
      cases h
  | some kind =>
      rw [hkind] at h
      exact ⟨kind, h⟩

theorem single_planted {path : Path} {sym : TracedSymbol} (hpath : sym.path = path)
    (h : Planted source lang root sym) :
  (∀ sym' ∈ [sym], path <+: sym'.path ∧ Planted source lang root sym')
    ∧ [sym].Pairwise (fun a b => Before a.path b.path)
  := by
  constructor
  · rw [List.forall_mem_singleton, hpath]
    exact ⟨List.prefix_rfl, h⟩
  · apply List.pairwise_singleton

mutual

/-- The walk of the node at the end of a path makes symbols of nodes there and below. -/
theorem planted_traceNodeSymbols {parentKind : String} {path : Path} :
  ∀ {node : Node} {symbols : List TracedSymbol}, root.follow path = some node →
    traceNodeSymbols source lang parentKind path node = .ok symbols →
    (∀ sym ∈ symbols, path <+: sym.path ∧ Planted source lang root sym)
      ∧ symbols.Pairwise (fun a b => Before a.path b.path)
  | .mk kind fieldName range children, symbols, hnode, h => by
      rw [traceNodeSymbols] at h
      obtain ⟨symbol, hsymbol, h⟩ := Outcome.bind_eq_ok.mp h
      cases symbol with
      | some sym =>
          obtain rfl := Except.ok.inj h
          obtain ⟨kind', htrace⟩ := of_traceSymbolOfNode hsymbol
          apply single_planted (of_traceSymbol htrace).1 (planted_traceSymbol hnode htrace)
      | none =>
          dsimp only at h
          cases hname : assignedName source lang parentKind (.mk kind fieldName range children) with
          | some name =>
              rw [hname] at h
              obtain rfl := Except.ok.inj h
              apply single_planted rfl
              apply Planted.mk
              · exact ⟨_, hnode, Or.inr ⟨parentKind, name, hname, rfl⟩⟩
              · apply List.forall_mem_nil
              · apply List.Pairwise.nil
              · apply List.forall_mem_nil
          | none =>
              rw [hname] at h
              obtain ⟨hsymbols, hpairwise⟩ := planted_traceChildSymbols (fun j => by
                rw [Node.follow_concat, hnode, Nat.zero_add]
                rfl) h
              constructor
              · intro sym hsym
                obtain ⟨⟨j, -, hleads⟩, hplanted⟩ := hsymbols sym hsym
                exact ⟨(List.prefix_append path [j]).trans hleads, hplanted⟩
              · apply hpairwise

theorem planted_traceChildSymbols {parentKind : String} {path : Path} :
  ∀ {i : ℕ} {nodes : List Node} {symbols : List TracedSymbol},
    (∀ j, root.follow (path ++ [i + j]) = nodes[j]?) →
    traceChildSymbols source lang parentKind path i nodes = .ok symbols →
    (∀ sym ∈ symbols, (∃ j, i ≤ j ∧ path ++ [j] <+: sym.path) ∧ Planted source lang root sym)
      ∧ symbols.Pairwise (fun a b => Before a.path b.path)
  | i, [], symbols, hnodes, h => by
      rw [traceChildSymbols] at h
      obtain rfl := Except.ok.inj h
      constructor
      · apply List.forall_mem_nil
      · apply List.Pairwise.nil
  | i, node :: nodes, symbols, hnodes, h => by
      rw [traceChildSymbols] at h
      obtain ⟨part, hpart, h⟩ := Outcome.bind_eq_ok.mp h
      obtain ⟨rest, hrest, h⟩ := Outcome.bind_eq_ok.mp h
      obtain rfl := Except.ok.inj h
      obtain ⟨hsymbols, hpairwise⟩ := planted_traceNodeSymbols (hnodes 0) hpart
      obtain ⟨hsymbols', hpairwise'⟩ := planted_traceChildSymbols (fun j => by
        rw [Nat.add_assoc, Nat.add_comm 1 j]
        apply hnodes (j + 1)) hrest
      constructor
      · intro sym hsym
        rcases List.mem_append.mp hsym with hsym | hsym
        · obtain ⟨hleads, hplanted⟩ := hsymbols sym hsym
          exact ⟨⟨i, le_rfl, hleads⟩, hplanted⟩
        · obtain ⟨⟨j, hle, hleads⟩, hplanted⟩ := hsymbols' sym hsym
          exact ⟨⟨j, by omega, hleads⟩, hplanted⟩
      · rw [List.pairwise_append]
        use hpairwise, hpairwise'
        intro a ha b hb
        obtain ⟨⟨j, hle, hb⟩, -⟩ := hsymbols' b hb
        exact ⟨path, i, j, by omega, (hsymbols a ha).1, hb⟩

end

/-! ### Forests of planted symbols -/

section Planted

variable {sym : TracedSymbol} {symbols : List TracedSymbol}

theorem Planted.rise (h : Planted source lang root sym) :
  GivesRise source lang root sym.path sym.erase
  := by
  cases h with
  | mk hrise => apply hrise

theorem Planted.child (h : Planted source lang root sym) :
  ∀ child ∈ sym.children, Below sym.path child.path ∧ Planted source lang root child
  := by
  cases h with
  | mk hrise hbelow hpairwise hchildren =>
      intro child hchild
      exact ⟨hbelow child hchild, hchildren child hchild⟩

/-- In a well-nested tree a symbol from below lies inside. -/
theorem Planted.within (hroot : WellNested root) {inner : TracedSymbol}
    (h : Planted source lang root sym) (hinner : Planted source lang root inner)
    (hleads : sym.path <+: inner.path) :
  inner.erase.span.Within sym.erase.span
  := hroot.nested.within_of_isPrefix hleads h.rise.span hinner.rise.span

/-- In a well-nested tree a symbol from before ends before the other starts. -/
theorem Planted.precedes (hroot : WellNested root) {next : TracedSymbol}
    (h : Planted source lang root sym) (hnext : Planted source lang root next)
    (hbefore : Before sym.path next.path) :
  sym.erase.span.Precedes next.erase.span
  := hroot.nested.precedes_of_before hbefore h.rise.span hnext.rise.span

/-- Nested symbols of nested symbols make a nested forest. -/
theorem nestedForest_of_below (hroot : WellNested root)
    (hplanted : ∀ sym ∈ symbols, Planted source lang root sym)
    (hpairwise : symbols.Pairwise (fun a b => Before a.path b.path))
    (hbelow : ∀ sym ∈ symbols, NestedForest (sym.children.map TracedSymbol.erase)) :
  NestedForest (symbols.map TracedSymbol.erase)
  := by
  apply NestedForest.mk
  · apply List.pairwise_map.mpr
    apply hpairwise.imp_of_mem
    intro a b ha hb hbefore
    apply (hplanted a ha).precedes hroot (hplanted b hb) hbefore
  · rw [List.forall_mem_map]
    intro sym hsym
    rw [TracedSymbol.children_erase, List.forall_mem_map]
    intro child hchild
    obtain ⟨hchildBelow, hchildPlanted⟩ := (hplanted sym hsym).child child hchild
    apply (hplanted sym hsym).within hroot hchildPlanted hchildBelow.isPrefix
  · rw [List.forall_mem_map]
    intro sym hsym
    rw [TracedSymbol.children_erase]
    apply hbelow sym hsym

theorem Planted.nestedForest (hroot : WellNested root) (h : Planted source lang root sym) :
  NestedForest (sym.children.map TracedSymbol.erase)
  := by
  induction h with
  | mk hrise hbelow hpairwise hchildren ih =>
      apply nestedForest_of_below hroot hchildren hpairwise ih

/-- A symbol at any depth comes from the node at its path, there or below. -/
theorem Planted.subtree (h : Planted source lang root sym) :
  ∀ inner ∈ sym.subtree, sym.path <+: inner.path
    ∧ GivesRise source lang root inner.path inner.erase
  := by
  induction h with
  | @mk sym hrise hbelow hpairwise hchildren ih =>
      intro inner hinner
      rw [TracedSymbol.subtree_eq_cons, TracedSymbol.every_eq_flatMap] at hinner
      rcases List.mem_cons.mp hinner with rfl | hinner
      · exact ⟨List.prefix_rfl, hrise⟩
      · obtain ⟨child, hchild, hinner⟩ := List.mem_flatMap.mp hinner
        obtain ⟨hleads, hinnerRise⟩ := ih child hchild inner hinner
        exact ⟨(hbelow child hchild).isPrefix.trans hleads, hinnerRise⟩

/-- Symbols at any depth come from different nodes, when those of each tree do. -/
theorem pairwise_every (hplanted : ∀ sym ∈ symbols, Planted source lang root sym)
    (hpairwise : symbols.Pairwise (fun a b => Before a.path b.path))
    (hsubtree : ∀ sym ∈ symbols, sym.subtree.Pairwise (fun a b => a.path ≠ b.path)) :
  (TracedSymbol.every symbols).Pairwise (fun a b => a.path ≠ b.path)
  := by
  rw [TracedSymbol.every_eq_flatMap, List.pairwise_flatMap]
  use hsubtree
  apply hpairwise.imp_of_mem
  intro a b ha hb hbefore x hx y hy
  have hax := ((hplanted a ha).subtree x hx).1
  have hby := ((hplanted b hb).subtree y hy).1
  apply (hbefore.of_isPrefix hax hby).ne

theorem Planted.pairwise_subtree (h : Planted source lang root sym) :
  sym.subtree.Pairwise (fun a b => a.path ≠ b.path)
  := by
  induction h with
  | @mk sym hrise hbelow hpairwise hchildren ih =>
      rw [TracedSymbol.subtree_eq_cons, List.pairwise_cons]
      constructor
      · intro inner hinner
        rw [TracedSymbol.every_eq_flatMap] at hinner
        obtain ⟨child, hchild, hinner⟩ := List.mem_flatMap.mp hinner
        have hleads := ((hchildren child hchild).subtree inner hinner).1
        apply ((hbelow child hchild).trans_isPrefix hleads).ne
      · apply pairwise_every hchildren hpairwise ih

end Planted

/-- The forest of a well-nested tree is well nested, and each of its symbols comes from a node of
its own. -/
theorem collect_symbols_nested (hroot : WellNested root) {forest : List CodeSymbol}
    (hforest : collectSymbols root source lang = .ok forest) :
  NestedForest forest
    ∧ ∃ traced, traceSymbols root source lang = .ok traced
      ∧ traced.map TracedSymbol.erase = forest
      ∧ (∀ sym ∈ TracedSymbol.every traced, GivesRise source lang root sym.path sym.erase)
      ∧ ((TracedSymbol.every traced).map TracedSymbol.path).Nodup
  := by
  obtain ⟨traced, htraced, rfl⟩ : ∃ traced, traceSymbols root source lang = .ok traced
      ∧ traced.map TracedSymbol.erase = forest := by
    rw [← erase_traceSymbols, map_eq_pure_bind] at hforest
    obtain ⟨traced, htraced, h⟩ := Outcome.bind_eq_ok.mp hforest
    exact ⟨traced, htraced, Except.ok.inj h⟩
  have hnodes (j : ℕ) : root.follow ([] ++ [0 + j]) = root.children[j]? := by
    rw [Nat.zero_add]
    apply Node.follow_singleton
  obtain ⟨hsymbols, hpairwise⟩ := planted_traceChildSymbols hnodes htraced
  have hplanted (sym : TracedSymbol) (hsym : sym ∈ traced) : Planted source lang root sym :=
    (hsymbols sym hsym).2
  constructor
  · apply nestedForest_of_below hroot hplanted hpairwise
    intro sym hsym
    apply (hplanted sym hsym).nestedForest hroot
  · use traced, htraced, rfl
    constructor
    · intro sym hsym
      rw [TracedSymbol.every_eq_flatMap] at hsym
      obtain ⟨top, htop, hsym⟩ := List.mem_flatMap.mp hsym
      apply ((hplanted top htop).subtree sym hsym).2
    · apply List.pairwise_map.mpr
      apply pairwise_every hplanted hpairwise
      intro sym hsym
      apply (hplanted sym hsym).pairwise_subtree

/-! ### A trait of two functions -/

/-- A source with a trait of two functions. -/
def functionsSource : String :=
  "trait T { fn f() {} fn g() {} }"

/-- The function at a column of `functionsSource`. -/
def functionItem (column : ℕ) : Node :=
  .mk "function_item" none ⟨column, column + 9, ⟨0, column⟩, ⟨0, column + 9⟩⟩
    [.mk "identifier" (some "name") ⟨column + 3, column + 4, ⟨0, column + 3⟩, ⟨0, column + 4⟩⟩ []]

/-- The trait of `functionsSource`. -/
def functionsItem : Node :=
  .mk "trait_item" none ⟨0, 31, ⟨0, 0⟩, ⟨0, 31⟩⟩
    [.mk "type_identifier" (some "name") ⟨6, 7, ⟨0, 6⟩, ⟨0, 7⟩⟩ [],
      .mk "declaration_list" (some "body") ⟨8, 31, ⟨0, 8⟩, ⟨0, 31⟩⟩
        [functionItem 10, functionItem 20]]

/-- The tree of `functionsSource`. -/
def functionsTree : Node :=
  .mk "source_file" none ⟨0, 31, ⟨0, 0⟩, ⟨0, 31⟩⟩ [functionsItem]

/-- The trait, with its functions nested in it. -/
def functionsSymbol : CodeSymbol :=
  .mk "T" .trait ⟨0, 0, 0, 31⟩ none
    [.mk "f" .method ⟨0, 10, 0, 19⟩ none [], .mk "g" .method ⟨0, 20, 0, 29⟩ none []]

theorem wellNested_functionsTree :
  WellNested functionsTree
  := by
  simp only [functionsTree, functionsItem, functionItem, wellNested_mk, List.forall_mem_cons,
    List.pairwise_cons, List.Pairwise.nil, List.not_mem_nil, false_imp_iff, implies_true]
  decide

theorem collectSymbols_functionsTree :
  collectSymbols functionsTree functionsSource .rust = .ok [functionsSymbol]
  := by
  have hf : memberSymbol functionsSource .rust (functionItem 10)
      = .ok (some (.mk "f" .method ⟨0, 10, 0, 19⟩ none [])) := by
    change buildSymbol functionsSource .rust (functionItem 10) .method = _
    rw [buildSymbol_eq]
    rfl
  have hg : memberSymbol functionsSource .rust (functionItem 20)
      = .ok (some (.mk "g" .method ⟨0, 20, 0, 29⟩ none [])) := by
    change buildSymbol functionsSource .rust (functionItem 20) .method = _
    rw [buildSymbol_eq]
    rfl
  have hmembers : (bodyOf functionsItem).children.filterMapM (memberSymbol functionsSource .rust)
      = .ok functionsSymbol.children := by
    change [functionItem 10, functionItem 20].filterMapM (memberSymbol functionsSource .rust) = _
    rw [List.filterMapM_cons, hf, List.filterMapM_cons, hg]
    rfl
  have hkind : nodeKindToSymbol functionsItem.kind .rust = some .trait := rfl
  have hitem : buildSymbol functionsSource .rust functionsItem .trait
      = .ok (some functionsSymbol) := by
    rw [buildSymbol_eq, hmembers]
    rfl
  rw [collectSymbols, functionsTree, Node.children, collectChildSymbols,
    collectNodeSymbols_of_build hkind hitem]
  rfl

/-- In particular the functions of a trait lie inside it, one before the other. -/
theorem collect_symbols_nested_functions :
  NestedForest [functionsSymbol]
    ∧ ∃ traced, traceSymbols functionsTree functionsSource .rust = .ok traced
      ∧ traced.map TracedSymbol.erase = [functionsSymbol]
      ∧ (∀ sym ∈ TracedSymbol.every traced,
        GivesRise functionsSource .rust functionsTree sym.path sym.erase)
      ∧ ((TracedSymbol.every traced).map TracedSymbol.path).Nodup
  := collect_symbols_nested wellNested_functionsTree collectSymbols_functionsTree

end OrchestraRag
