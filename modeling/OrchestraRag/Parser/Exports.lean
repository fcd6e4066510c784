import OrchestraRag.Parser.Walk

/-!
# Exported declarations

An export statement is itself a symbol, so the walk does not look at the declaration in it,
unless the text of the statement cannot be read (`exportsContribute_iff`).
-/

namespace OrchestraRag

variable {source : String} {lang : LangCategory} {root statement decl : Node} {kind : SymbolKind}

/-- The declarations that may be exported, with the kinds of their symbols. -/
def exportable : LangCategory → List (String × SymbolKind)
  | .javaScript => [("function_declaration", .function), ("class_declaration", .class_)]
  | .typeScript =>
      [("function_declaration", .function), ("class_declaration", .class_),
        ("interface_declaration", .interface), ("type_alias_declaration", .type),
        ("enum_declaration", .enum)]
  | _ => []

/-- A declaration with a name, in a top-level export statement. -/
structure Exported (lang : LangCategory) (root statement decl : Node) (kind : SymbolKind) :
    Prop where
  top : statement ∈ root.children
  statementKind : statement.kind = "export_statement"
  child : decl ∈ statement.children
  declKind : (exportable lang).lookup decl.kind = some kind
  named : (decl.childByFieldName "name").isSome = true

/-- The text of the field `name` of a declaration. -/
def nameText (source : String) (decl : Node) : Option String :=
  (decl.childByFieldName "name").bind (nodeText source)

/-- Every exported declaration contributes a symbol of its name and kind, the one that it becomes
without the export statement. -/
def ExportsContribute (source : String) (lang : LangCategory) (root : Node) : Prop :=
  ∀ statement decl kind, Exported lang root statement decl kind →
    ∃ symbols part sym, collectSymbols root source lang = .ok symbols
      ∧ collectNodeSymbols source lang root.kind statement = .ok part ∧ part ⊆ symbols
      ∧ sym ∈ part ∧ nameText source decl = some sym.name ∧ sym.kind = kind
      ∧ collectNodeSymbols source lang root.kind decl = .ok [sym]

namespace Exported

theorem lang_eq (h : Exported lang root statement decl kind) :
  lang = .javaScript ∨ lang = .typeScript
  := by
  have hkind := h.declKind
  cases lang with
  | javaScript => apply Or.inl rfl
  | typeScript => apply Or.inr rfl
  | _ => cases hkind

/-- An exported declaration is a definition. -/
theorem nodeKindToSymbol_decl (h : Exported lang root statement decl kind) :
  nodeKindToSymbol decl.kind lang = some kind ∧ ¬ IsStatement kind
  := by
  have hkind := h.declKind
  obtain ⟨before, after, htable, -⟩ := List.lookup_eq_some_iff.mp hkind
  have hmem : (decl.kind, kind) ∈ exportable lang := by
    rw [htable]
    simp
  rcases h.lang_eq with rfl | rfl
  · simp only [exportable, List.mem_cons, Prod.mk.injEq, List.not_mem_nil, or_false] at hmem
    rcases hmem with ⟨hdecl, rfl⟩ | ⟨hdecl, rfl⟩
    · rw [hdecl]
      exact ⟨rfl, by decide⟩
    · rw [hdecl]
      exact ⟨rfl, by decide⟩
  · simp only [exportable, List.mem_cons, Prod.mk.injEq, List.not_mem_nil, or_false] at hmem
    rcases hmem with ⟨hdecl, rfl⟩ | ⟨hdecl, rfl⟩ | ⟨hdecl, rfl⟩ | ⟨hdecl, rfl⟩ | ⟨hdecl, rfl⟩
    · rw [hdecl]
      exact ⟨rfl, by decide⟩
    · rw [hdecl]
      exact ⟨rfl, by decide⟩
    · rw [hdecl]
      exact ⟨rfl, by decide⟩
    · rw [hdecl]
      exact ⟨rfl, by decide⟩
    · rw [hdecl]
      exact ⟨rfl, by decide⟩

/-- Its name is the text of its field `name`. -/
theorem extractDeclaredName_decl (h : Exported lang root statement decl kind) :
  extractDeclaredName source decl lang = nameText source decl
  := by
  obtain ⟨nameNode, hname⟩ := Option.isSome_iff_exists.mp h.named
  have hgo : lang ≠ .go := by
    rcases h.lang_eq with rfl | rfl
    · decide
    · decide
  have hrust : lang ≠ .rust := by
    rcases h.lang_eq with rfl | rfl
    · decide
    · decide
  rw [extractDeclaredName, if_neg (fun hand => hgo hand.1), if_neg (fun hand => hrust hand.1),
    extractNameFromNode, nameText, hname]
  rfl

theorem nodeKindToSymbol_statement (h : Exported lang root statement decl kind) :
  nodeKindToSymbol statement.kind lang = some .export_
  := by
  rw [h.statementKind]
  rcases h.lang_eq with rfl | rfl
  · rfl
  · rfl

theorem statementText_eq (h : Exported lang root statement decl kind) :
  statementText source lang statement = nodeText source statement
  := by
  rw [statementText, h.nodeKindToSymbol_statement]
  apply if_pos (Or.inr rfl)

theorem assignedName_eq (h : Exported lang root statement decl kind) (parentKind : String) :
  assignedName source lang parentKind statement = none
  := by
  rw [assignedName, if_neg]
  rintro ⟨rfl, -⟩
  rcases h.lang_eq with ⟨⟨⟩⟩ | ⟨⟨⟩⟩

/-- A statement whose text can be read hides the declaration in it. -/
theorem not_contribute (h : Exported lang root statement decl kind) {text : String}
    (htext : nodeText source statement = some text) :
  ¬ ExportsContribute source lang root
  := by
  intro hcontribute
  obtain ⟨-, part, sym, -, hpart, -, hsym, -, hkind, -⟩ := hcontribute statement decl kind h
  have hdefinition := h.nodeKindToSymbol_decl.2
  cases nodeWalk_of_collect hpart with
  | statement hstatement hsymkind =>
      obtain rfl := List.mem_singleton.mp hsym
      rw [hkind] at hsymkind
      apply hdefinition hsymkind
  | definition hstatement => 
      rw [h.statementText_eq, htext] at hstatement
      cases hstatement
  | assignment hstatement =>
      rw [h.statementText_eq, htext] at hstatement
      cases hstatement
  | descend hstatement =>
      rw [h.statementText_eq, htext] at hstatement
      cases hstatement

/-- The declaration in a statement whose text cannot be read becomes a symbol. -/
theorem contributes (h : Exported lang root statement decl kind) {name : String}
    {symbols : List CodeSymbol} (htext : nodeText source statement = none)
    (hname : nameText source decl = some name)
    (hsymbols : collectSymbols root source lang = .ok symbols) :
  ∃ part sym, collectNodeSymbols source lang root.kind statement = .ok part ∧ part ⊆ symbols
    ∧ sym ∈ part ∧ nameText source decl = some sym.name ∧ sym.kind = kind
    ∧ collectNodeSymbols source lang root.kind decl = .ok [sym]
  := by
  obtain ⟨hkind, hdefinition⟩ := h.nodeKindToSymbol_decl
  rw [← h.extractDeclaredName_decl] at hname
  obtain ⟨sym, hbuild, rfl, hsymkind⟩ := buildSymbol_of_definition hdefinition hname
  obtain ⟨part, hpart, hsub⟩ := of_mem_collectChildSymbols h.top hsymbols
  rw [h.extractDeclaredName_decl] at hname
  use part, sym, hpart, hsub
  refine ⟨?_, hname, hsymkind, collectNodeSymbols_of_build hkind hbuild⟩
  cases nodeWalk_of_collect hpart with
  | statement hstatement =>
      rw [h.statementText_eq, htext] at hstatement
      cases hstatement
  | definition hstatement hkind' hdefinition' =>
      rw [h.nodeKindToSymbol_statement] at hkind'
      obtain rfl := Option.some.inj hkind'
      apply absurd (Or.inr rfl) hdefinition'
  | assignment hstatement hnone hassigned =>
      rw [h.assignedName_eq] at hassigned
      cases hassigned
  | descend hstatement hnone hassigned hchildren =>
      obtain ⟨part', hpart', hsub'⟩ := of_mem_collectChildSymbols h.child hchildren
      rw [collectNodeSymbols_of_build hkind hbuild] at hpart'
      obtain rfl := Except.ok.inj hpart'
      apply hsub' List.mem_cons_self

end Exported

/-- Exported declarations contribute symbols exactly when for each the text of its export
statement cannot be read, its name can, and no import of the tree is cut inside a character. -/
theorem exportsContribute_iff (source : String) (lang : LangCategory) (root : Node) :
  ExportsContribute source lang root
    ↔ ∀ statement decl kind, Exported lang root statement decl kind →
      nodeText source statement = none ∧ nameText source decl ≠ none
        ∧ ∀ text ∈ childImportTexts source lang root.kind root.children, Cuttable text
  := by
  have hok := collectChildSymbols_okIff source lang root.kind root.children
  constructor
  · intro hcontribute statement decl kind h
    obtain ⟨symbols, part, sym, hsymbols, -, -, -, hname, -⟩ := hcontribute statement decl kind h
    refine ⟨?_, ?_, ?_⟩
    · by_contra htext
      obtain ⟨text, htext⟩ := Option.ne_none_iff_exists'.mp htext
      apply h.not_contribute htext hcontribute
    · rw [hname]
      apply Option.some_ne_none
    · by_contra hcut
      cases (hok.panicked hcut).symm.trans hsymbols
  · intro hcondition statement decl kind h
    obtain ⟨htext, hname, hcut⟩ := hcondition statement decl kind h
    obtain ⟨symbols, hsymbols⟩ := hok.ok hcut
    obtain ⟨name, hname⟩ := Option.ne_none_iff_exists'.mp hname
    use symbols
    obtain ⟨part, sym, hcontributes⟩ := h.contributes htext hname hsymbols
    exact ⟨part, sym, hsymbols, hcontributes⟩

/-! ### An exported function -/

def exportedSource : String :=
  "export function f() {}"

/-- The function of `exportedSource`. -/
def exportedFunction : Node :=
  .mk "function_declaration" (some "declaration") ⟨7, 22, ⟨0, 7⟩, ⟨0, 22⟩⟩
    [.mk "identifier" (some "name") ⟨16, 17, ⟨0, 16⟩, ⟨0, 17⟩⟩ []]

/-- Its export statement. -/
def exportStatement : Node :=
  .mk "export_statement" none ⟨0, 22, ⟨0, 0⟩, ⟨0, 22⟩⟩ [exportedFunction]

/-- The tree of `exportedSource`. -/
def exportedTree : Node :=
  .mk "program" none ⟨0, 22, ⟨0, 0⟩, ⟨0, 22⟩⟩ [exportStatement]

/-- The exported function contributes no symbol. -/
theorem not_exportsContribute_exportedTree :
  ¬ ExportsContribute exportedSource .javaScript exportedTree
    ∧ ¬ ExportsContribute exportedSource .typeScript exportedTree
  := by
  have htext : nodeText exportedSource exportStatement = some exportedSource := by decide
  have hexported (lang : LangCategory) (hlang : lang = .javaScript ∨ lang = .typeScript) :
      Exported lang exportedTree exportStatement exportedFunction .function := by
    rcases hlang with rfl | rfl
    · exact ⟨List.mem_cons_self, rfl, List.mem_cons_self, rfl, rfl⟩
    · exact ⟨List.mem_cons_self, rfl, List.mem_cons_self, rfl, rfl⟩
  constructor
  · apply (hexported _ (Or.inl rfl)).not_contribute htext
  · apply (hexported _ (Or.inr rfl)).not_contribute htext

end OrchestraRag
