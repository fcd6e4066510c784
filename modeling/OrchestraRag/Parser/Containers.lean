import OrchestraRag.Index.Tools
import OrchestraRag.Parser.Walk

/-!
# Definitions in containers

The walk descends through nodes that are no symbols, at any depth; the members of a container are
only the children of its body, of fewer kinds, and other symbols have no members.  So a container
keeps the names of the definitions in its body exactly when these are names of such members, or
its own (`keepsNames_iff`).
-/

namespace OrchestraRag

variable {source : String} {lang : LangCategory} {parentKind : String} {node : Node}
  {kind : SymbolKind} {sym : CodeSymbol} {symbols : List CodeSymbol}

/-! ### What is defined -/

mutual

/-- The names of the definitions at and below a node that are not inside another symbol. -/
def definedNames (source : String) (lang : LangCategory) (parentKind : String) :
    Node → List String
  | .mk kind fieldName range children =>
      let node := Node.mk kind fieldName range children
      match statementText source lang node with
      | some _ => []
      | none =>
          match definitionName source lang node with
          | some name => [name]
          | none =>
              match assignedName source lang parentKind node with
              | some name => [name]
              | none => childDefinedNames source lang kind children

def childDefinedNames (source : String) (lang : LangCategory) (parentKind : String) :
    List Node → List String
  | [] => []
  | node :: nodes =>
      definedNames source lang parentKind node ++ childDefinedNames source lang parentKind nodes

end

/-- The names of the symbols that are no statements. -/
def definitionNames (symbols : List CodeSymbol) : List String :=
  (symbols.filter (fun sym => ¬ IsStatement sym.kind)).map CodeSymbol.name

theorem definitionNames_append (symbols rest : List CodeSymbol) :
  definitionNames (symbols ++ rest) = definitionNames symbols ++ definitionNames rest
  := by
  rw [definitionNames, List.filter_append, List.map_append]
  rfl

theorem definitionNames_of_statement (h : IsStatement sym.kind) :
  definitionNames [sym] = []
  := by
  rw [definitionNames, List.filter_cons_of_neg (by simp [h])]
  rfl

theorem definitionNames_of_definition (h : ¬ IsStatement sym.kind) :
  definitionNames [sym] = [sym.name]
  := by
  rw [definitionNames, List.filter_cons_of_pos (by simp [h])]
  rfl

mutual

/-- The symbols of the walk that are no statements have the defined names. -/
theorem definitionNames_collectNodeSymbols {parentKind : String} :
  ∀ {node : Node} {symbols : List CodeSymbol},
    collectNodeSymbols source lang parentKind node = .ok symbols →
    definitionNames symbols = definedNames source lang parentKind node
  | .mk nodeKind fieldName range children, symbols, h => by
      rw [definedNames]
      cases nodeWalk_of_collect h with
      | statement htext hkind =>
          simp only [htext]
          apply definitionNames_of_statement hkind
      | definition hstatement hkind hdefinition hbuild hname hsymkind =>
          simp only [hstatement, hname]
          rw [← hsymkind] at hdefinition
          apply definitionNames_of_definition hdefinition
      | assignment hstatement hname hassigned =>
          simp only [hstatement, hname, hassigned]
          rfl
      | descend hstatement hname hassigned hchildren =>
          simp only [hstatement, hname, hassigned]
          apply definitionNames_collectChildSymbols hchildren

theorem definitionNames_collectChildSymbols {parentKind : String} :
  ∀ {nodes : List Node} {symbols : List CodeSymbol},
    collectChildSymbols source lang parentKind nodes = .ok symbols →
    definitionNames symbols = childDefinedNames source lang parentKind nodes
  | [], symbols, h => by
      rw [collectChildSymbols] at h
      obtain rfl := Except.ok.inj h
      rw [childDefinedNames]
      rfl
  | node :: nodes, symbols, h => by
      rw [collectChildSymbols] at h
      obtain ⟨part, hpart, h⟩ := Outcome.bind_eq_ok.mp h
      obtain ⟨rest, hrest, h⟩ := Outcome.bind_eq_ok.mp h
      obtain rfl := Except.ok.inj h
      rw [childDefinedNames, definitionNames_append, definitionNames_collectNodeSymbols hpart,
        definitionNames_collectChildSymbols hrest]

end

/-! ### What is kept -/

/-- The name of a member of a container. -/
def memberName (source : String) (lang : LangCategory) (member : Node) : Option String :=
  if (classifyNestedNode member.kind lang).isSome then extractDeclaredName source member lang
  else none

/-- No node inside a body is a container. -/
theorem classifyNestedNode_not_container {nodeType : String}
    (h : classifyNestedNode nodeType lang = some kind) :
  isContainer kind = false
  := by
  cases lang with
  | generic =>
      rw [classifyNestedNode] at h
      split at h
      · cases h
        rfl
      · cases h
  | _ =>
      obtain ⟨l₁, l₂, htable, -⟩ := List.lookup_eq_some_iff.mp h
      have hmem : (nodeType, kind) ∈ l₁ ++ (nodeType, kind) :: l₂ := by simp
      rw [← htable] at hmem
      simp only [List.mem_cons, Prod.mk.injEq, List.not_mem_nil, or_false] at hmem
      grind [isContainer]

/-- A member becomes a symbol of its name, without members. -/
theorem memberSymbol_eq (source : String) (lang : LangCategory) (member : Node) :
  ∃ symbol, memberSymbol source lang member = .ok symbol
    ∧ symbol.toList.flatMap symbolNamesOf = (memberName source lang member).toList
  := by
  rw [memberSymbol, memberName]
  cases hkind : classifyNestedNode member.kind lang with
  | none => exact ⟨none, rfl, rfl⟩
  | some kind =>
      have hdefinition := classifyNestedNode_not_import hkind
      cases hname : extractDeclaredName source member lang with
      | none => exact ⟨none, not_buildSymbol_of_none hdefinition hname, rfl⟩
      | some name =>
          obtain ⟨sym, hbuild, rfl, hsymkind⟩ := buildSymbol_of_definition hdefinition hname
          obtain ⟨-, -, -, -, hchildren⟩ := of_buildSymbol hbuild
          have hnil := hchildren (classifyNestedNode_not_container hkind)
          use some sym, hbuild
          obtain ⟨symName, symKind, range, detail, children⟩ := sym
          obtain rfl : children = [] := hnil
          simp [symbolNamesOf, symbolNames, CodeSymbol.name]

theorem symbolNames_eq_flatMap (symbols : List CodeSymbol) :
  symbolNames symbols = symbols.flatMap symbolNamesOf
  := by
  induction symbols with
  | nil => rw [symbolNames, List.flatMap_nil]
  | cons sym symbols ih => rw [symbolNames, ih, List.flatMap_cons]

/-- The names in the members of a body. -/
theorem symbolNames_members {members : List Node}
    (h : members.filterMapM (memberSymbol source lang) = .ok symbols) :
  symbolNames symbols = members.filterMap (memberName source lang)
  := by
  induction members generalizing symbols with
  | nil =>
      have hnil : symbols = [] := (Except.ok.inj h).symm
      rw [hnil, symbolNames, List.filterMap_nil]
  | cons member members ih =>
      obtain ⟨symbol, hsymbol, hnames⟩ := memberSymbol_eq source lang member
      rw [List.filterMapM_cons, hsymbol] at h
      have hsplit : (member :: members).filterMap (memberName source lang)
          = (memberName source lang member).toList
            ++ members.filterMap (memberName source lang) := by
        rw [List.filterMap_cons]
        cases memberName source lang member with
        | none => rfl
        | some name => rfl
      rw [hsplit, ← hnames]
      cases symbol with
      | none => apply ih h
      | some sym =>
          obtain ⟨found, hfound, h⟩ := Outcome.bind_eq_ok.mp h
          obtain rfl := Except.ok.inj hfound
          obtain ⟨rest, hrest, h⟩ := Outcome.bind_eq_ok.mp h
          obtain rfl := Except.ok.inj h
          rw [symbolNames, ih hrest, Option.toList_some, List.flatMap_singleton]

/-- The names in the symbol of a container: its own, and those of its members. -/
theorem symbolNamesOf_of_build (h : buildSymbol source lang node kind = .ok (some sym)) :
  symbolNamesOf sym = sym.name :: if isContainer kind
    then (bodyOf node).children.filterMap (memberName source lang) else []
  := by
  obtain ⟨-, -, -, hmembers, hnone⟩ := of_buildSymbol h
  obtain ⟨name, symKind, range, detail, children⟩ := sym
  rw [symbolNamesOf]
  apply congrArg (List.cons name)
  split
  case isTrue hcontainer => apply symbolNames_members (hmembers hcontainer)
  case isFalse hcontainer =>
      have hnil : children = [] := hnone (Bool.eq_false_iff.mpr hcontainer)
      rw [hnil, symbolNames]

/-! ### Containers -/

/-- The names of the definitions that the walk finds in a list of nodes are somewhere in what it
makes of the container around them. -/
def KeepsNames (source : String) (lang : LangCategory) (outer inner : String) (node : Node) :
    Prop :=
  ∀ symbols, collectChildSymbols source lang inner (bodyOf node).children = .ok symbols →
    ∃ forest, collectNodeSymbols source lang outer node = .ok forest
      ∧ ∀ sym ∈ symbols, ¬ IsStatement sym.kind → sym.name ∈ symbolNames forest

/-- The names in what the walk makes of a container. -/
theorem mem_symbolNames_collect {outer name : String}
    (hkind : nodeKindToSymbol node.kind lang = some kind)
    (hname : definitionName source lang node = some name) :
  ∃ forest, collectNodeSymbols source lang outer node = .ok forest
    ∧ ∀ found, found ∈ symbolNames forest ↔ found = name
      ∨ isContainer kind = true
        ∧ ∃ member ∈ (bodyOf node).children, memberName source lang member = some found
  := by
  obtain ⟨kind', hkind', hdefinition, hdeclared⟩ := of_definitionName hname
  obtain rfl := Option.some.inj (hkind.symm.trans hkind')
  obtain ⟨sym, hbuild, rfl, -⟩ := buildSymbol_of_definition hdefinition hdeclared
  use [sym], collectNodeSymbols_of_build hkind hbuild
  intro found
  rw [symbolNames_eq_flatMap, List.flatMap_singleton, symbolNamesOf_of_build hbuild,
    List.mem_cons]
  apply or_congr_right
  split
  case isTrue hcontainer =>
      rw [List.mem_filterMap, and_iff_right hcontainer]
  case isFalse hcontainer =>
      apply iff_of_false List.not_mem_nil
      intro hand
      apply hcontainer hand.1

/-- A container keeps the names of the definitions in its body exactly when each is its own name
or, for a class, struct, trait or interface, the name of a child of the body of a nested kind. -/
theorem keepsNames_iff {outer inner name : String}
    (hkind : nodeKindToSymbol node.kind lang = some kind)
    (hname : definitionName source lang node = some name)
    (hwalk : collectChildSymbols source lang inner (bodyOf node).children = .ok symbols) :
  KeepsNames source lang outer inner node
    ↔ ∀ defined ∈ childDefinedNames source lang inner (bodyOf node).children,
      defined = name ∨ isContainer kind = true
        ∧ ∃ member ∈ (bodyOf node).children, memberName source lang member = some defined
  := by
  obtain ⟨forest, hforest, hmem⟩ := @mem_symbolNames_collect source lang node kind outer name
    hkind hname
  rw [← definitionNames_collectChildSymbols hwalk]
  constructor
  · intro hkeeps defined hdefined
    obtain ⟨forest', hforest', hall⟩ := hkeeps symbols hwalk
    obtain rfl := Except.ok.inj (hforest.symm.trans hforest')
    rw [← hmem]
    obtain ⟨sym, hsym, rfl⟩ := List.mem_map.mp hdefined
    obtain ⟨hsym, hdefinition⟩ := List.mem_filter.mp hsym
    apply hall sym hsym (of_decide_eq_true hdefinition)
  · intro hcondition symbols' hwalk'
    obtain rfl := Except.ok.inj (hwalk.symm.trans hwalk')
    use forest, hforest
    intro sym hsym hdefinition
    rw [hmem]
    apply hcondition
    apply List.mem_map_of_mem
    apply List.mem_filter.mpr ⟨hsym, decide_eq_true hdefinition⟩

/-! ### A module and a trait -/

def moduleSource : String :=
  "mod m { fn f() {} }"

/-- The module of `moduleSource`. -/
def moduleItem : Node :=
  .mk "mod_item" none ⟨0, 19, ⟨0, 0⟩, ⟨0, 19⟩⟩
    [.mk "identifier" (some "name") ⟨4, 5, ⟨0, 4⟩, ⟨0, 5⟩⟩ [],
      .mk "declaration_list" (some "body") ⟨6, 19, ⟨0, 6⟩, ⟨0, 19⟩⟩
        [.mk "function_item" none ⟨8, 17, ⟨0, 8⟩, ⟨0, 17⟩⟩
          [.mk "identifier" (some "name") ⟨11, 12, ⟨0, 11⟩, ⟨0, 12⟩⟩ []]]]

def traitSource : String :=
  "trait T { fn f() {} }"

/-- The trait of `traitSource`. -/
def traitItem : Node :=
  .mk "trait_item" none ⟨0, 21, ⟨0, 0⟩, ⟨0, 21⟩⟩
    [.mk "type_identifier" (some "name") ⟨6, 7, ⟨0, 6⟩, ⟨0, 7⟩⟩ [],
      .mk "declaration_list" (some "body") ⟨8, 21, ⟨0, 8⟩, ⟨0, 21⟩⟩
        [.mk "function_item" none ⟨10, 19, ⟨0, 10⟩, ⟨0, 19⟩⟩
          [.mk "identifier" (some "name") ⟨13, 14, ⟨0, 13⟩, ⟨0, 14⟩⟩ []]]]

/-- The trait keeps the name of its function. -/
theorem keepsNames_traitItem :
  KeepsNames traitSource .rust "source_file" "source_file" traitItem
  := by
  have hcut : ∀ text ∈ childImportTexts traitSource .rust "source_file"
      (bodyOf traitItem).children, Cuttable text := by
    have hnone : childImportTexts traitSource .rust "source_file" (bodyOf traitItem).children
        = [] := by decide
    rw [hnone]
    rintro text ⟨⟩
  obtain ⟨symbols, hwalk⟩ := (collectChildSymbols_okIff traitSource .rust "source_file"
    (bodyOf traitItem).children).ok hcut
  have hkind : nodeKindToSymbol traitItem.kind .rust = some .trait := rfl
  have hname : definitionName traitSource .rust traitItem = some "T" := by decide
  apply (keepsNames_iff hkind hname hwalk).mpr
  decide

/-- The module swallows its function. -/
theorem not_keepsNames_moduleItem :
  ¬ KeepsNames moduleSource .rust "source_file" "source_file" moduleItem
  := by
  have hcut : ∀ text ∈ childImportTexts moduleSource .rust "source_file"
      (bodyOf moduleItem).children, Cuttable text := by
    have hnone : childImportTexts moduleSource .rust "source_file" (bodyOf moduleItem).children
        = [] := by decide
    rw [hnone]
    rintro text ⟨⟩
  obtain ⟨symbols, hwalk⟩ := (collectChildSymbols_okIff moduleSource .rust "source_file"
    (bodyOf moduleItem).children).ok hcut
  have hkind : nodeKindToSymbol moduleItem.kind .rust = some .module := rfl
  have hname : definitionName moduleSource .rust moduleItem = some "m" := by decide
  have hdefined : definitionNames symbols = ["f"] := by
    rw [definitionNames_collectChildSymbols hwalk]
    decide
  intro hkeeps
  obtain ⟨forest, hforest, hall⟩ := hkeeps symbols hwalk
  obtain ⟨forest', hforest', hmem⟩ := @mem_symbolNames_collect moduleSource .rust moduleItem
    .module "source_file" "m" hkind hname
  obtain rfl := Except.ok.inj (hforest.symm.trans hforest')
  have hf : "f" ∈ definitionNames symbols := by
    rw [hdefined]
    apply List.mem_cons_self
  obtain ⟨sym, hsym, hsymname⟩ := List.mem_map.mp hf
  obtain ⟨hsym, hdefinition⟩ := List.mem_filter.mp hsym
  have hkept := hall sym hsym (of_decide_eq_true hdefinition)
  rw [hsymname, hmem] at hkept
  rcases hkept with hsame | ⟨⟨⟩, -⟩
  · revert hsame
    decide

end OrchestraRag
