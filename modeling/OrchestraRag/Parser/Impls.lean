import OrchestraRag.Parser.Walk

/-!
# Names of impl blocks

The name of a Rust impl block is put together from the children that have one of three kinds of
type node.  The grammar allows many more kinds for the type that is implemented.  A type of another
kind does not count: the trait then stands for the type, and a block without a trait has no name
and is dropped (`impl_named_iff`).
-/

namespace OrchestraRag

/-- The kinds of type nodes that are collected for the name of an impl block. -/
def collectedKinds : List String :=
  ["type_identifier", "scoped_type_identifier", "generic_type"]

/-- A Rust impl block as the grammar builds it: a trait, if there is one, before a type, each with
a text, and among the other children none of the collected kinds. -/
structure ImplBlock (source : String) (node : Node) (traitNode : Option Node) (typeNode : Node)
    (traitText : Option String) (typeText : String) : Prop where
  kind : node.kind = "impl_item"
  traitField : node.childByFieldName "trait" = traitNode
  typeField : node.childByFieldName "type" = some typeNode
  traitText : traitNode.map (nodeText source) = traitText.map some
  typeText : nodeText source typeNode = some typeText
  children : ∃ before between after,
    node.children = before ++ (traitNode.toList ++ (between ++ typeNode :: after))
      ∧ ∀ child ∈ before ++ (between ++ after), child.kind ∉ collectedKinds

/-- The name of an impl block of a type, for a trait if there is one. -/
def implName (traitText : Option String) (typeText : String) : String :=
  match traitText with
  | some trait => "impl " ++ trait ++ " for " ++ typeText
  | none => "impl " ++ typeText

/-- An impl block has the name of its trait and type, is not reported as one of the trait, and is
among the symbols, wherever it is. -/
structure ImplNamed (source : String) (node : Node) (traitText : Option String)
    (typeText : String) : Prop where
  named : extractName source node .class_ .rust = .ok (some (implName traitText typeText))
  not_inherent : ∀ trait, traitText = some trait →
    extractName source node .class_ .rust ≠ .ok (some (implName none trait))
  kept : ∀ parentKind, ∃ sym, collectNodeSymbols source .rust parentKind node = .ok [sym]
    ∧ sym.name = implName traitText typeText ∧ sym.kind = .class_

section Naming

variable {source : String} {node : Node} {traitNode : Option Node} {typeNode : Node}
  {traitText : Option String} {typeText : String}

/-- The name for a trait is longer than that of a part of it. -/
theorem implName_ne {trait typeText text : String}
    (h : text.length ≤ trait.length + typeText.length) :
  implName (some trait) typeText ≠ implName none text
  := by
  intro hname
  have hlength := congrArg String.length hname
  simp only [implName, String.length_append] at hlength
  have hfor : " for ".length = 5 := rfl
  omega

namespace ImplBlock

/-- The name of an impl block is extracted from its types. -/
theorem extractName_eq (h : ImplBlock source node traitNode typeNode traitText typeText) :
  extractName source node .class_ .rust = .ok (extractRustImplName source node)
  := by
  rw [extractName, if_neg (by decide), extractDeclaredName, if_neg (by simp),
    if_pos ⟨rfl, h.kind⟩]
  rfl

/-- The block is named and kept when the name of its trait and type is extracted. -/
theorem named_iff (h : ImplBlock source node traitNode typeNode traitText typeText) :
  ImplNamed source node traitText typeText
    ↔ extractRustImplName source node = some (implName traitText typeText)
  := by
  constructor
  · intro hnamed
    have hname := hnamed.named
    rw [h.extractName_eq] at hname
    apply Except.ok.inj hname
  · intro hname
    constructor
    · rw [h.extractName_eq, hname]
    · rintro trait rfl hinherent
      rw [h.extractName_eq, hname] at hinherent
      apply implName_ne (Nat.le_add_right trait.length typeText.length)
      apply Option.some.inj (Except.ok.inj hinherent)
    · intro parentKind
      have hkind : nodeKindToSymbol node.kind .rust = some .class_ := by
        rw [h.kind]
        rfl
      have hdeclared : extractDeclaredName source node .rust = some (implName traitText typeText) := by
        rw [extractDeclaredName, if_neg (by simp), if_pos ⟨rfl, h.kind⟩, hname]
      obtain ⟨sym, hbuild, hsymname, hsymkind⟩ :=
        buildSymbol_of_definition (by decide : ¬ IsStatement .class_) hdeclared
      exact ⟨sym, collectNodeSymbols_of_build hkind hbuild, hsymname, hsymkind⟩

/-- The types that are collected are the trait and the type, where they have one of the kinds. -/
theorem collected_eq (h : ImplBlock source node traitNode typeNode traitText typeText) :
  node.children.filter (fun child => collectedKinds.contains child.kind)
    = (traitNode.toList ++ [typeNode]).filter (fun child => collectedKinds.contains child.kind)
  := by
  obtain ⟨before, between, after, hchildren, hothers⟩ := h.children
  have hnone : ∀ nodes : List Node, (∀ child ∈ nodes, child ∈ before ++ (between ++ after)) →
      nodes.filter (fun child => collectedKinds.contains child.kind) = [] := by
    intro nodes hnodes
    rw [List.filter_eq_nil_iff]
    intro child hchild
    rw [List.contains_iff_mem]
    apply hothers child (hnodes child hchild)
  rw [hchildren, List.filter_append, List.filter_append, List.filter_append, List.filter_cons,
    hnone before (by simp +contextual), hnone between (by simp +contextual),
    hnone after (by simp +contextual), List.filter_append, List.filter_cons, List.filter_nil,
    List.nil_append, List.nil_append]

end ImplBlock

/-- An impl block has the name of its trait and type, and is kept, exactly when the type is of one
of the collected kinds, and the trait is too if there is one. -/
theorem impl_named_iff (h : ImplBlock source node traitNode typeNode traitText typeText) :
  ImplNamed source node traitText typeText
    ↔ typeNode.kind ∈ collectedKinds ∧ ∀ trait ∈ traitNode, trait.kind ∈ collectedKinds
  := by
  have hcollected := h.collected_eq
  have htype := h.typeText
  have htrait := h.traitText
  rw [h.named_iff, extractRustImplName, ← collectedKinds, hcollected]
  cases traitNode with
  | none =>
      obtain rfl := Option.map_eq_none_iff.mp htrait.symm
      by_cases hkind : typeNode.kind ∈ collectedKinds
      · simp [hkind, htype, implName]
      · simp [hkind]
  | some trait =>
      obtain ⟨text, rfl, hsome⟩ := Option.map_eq_some_iff.mp htrait.symm
      by_cases hkind : typeNode.kind ∈ collectedKinds
      · by_cases hkind' : trait.kind ∈ collectedKinds
        · simp [hkind, hkind', htype, ← hsome, implName]
        · have hne := (implName_ne (Nat.le_add_left typeText.length text.length)).symm
          simpa [hkind, hkind', htype, implName] using hne
      · by_cases hkind' : trait.kind ∈ collectedKinds
        · have hne := (implName_ne (Nat.le_add_right text.length typeText.length)).symm
          simpa [hkind, hkind', ← hsome, implName] using hne
        · simp [hkind, hkind']

end Naming

/-! ### Three blocks -/

/-- A node of a source with one line. -/
def onLine (kind : String) (fieldName : Option String) (start stop : ℕ) (children : List Node) :
    Node :=
  .mk kind fieldName ⟨start, stop, ⟨0, start⟩, ⟨0, stop⟩⟩ children

/-- The tree of `impl Show for Calc {}`. -/
def namedImpl : Node :=
  onLine "impl_item" none 0 21
    [onLine "impl" none 0 4 [],
      onLine "type_identifier" (some "trait") 5 9 [],
      onLine "for" none 10 13 [],
      onLine "type_identifier" (some "type") 14 18 [],
      onLine "declaration_list" (some "body") 19 21 []]

theorem impl_named_iff_namedImpl :
  ImplNamed "impl Show for Calc {}" namedImpl (some "Show") "Calc"
  := by
  have hblock : ImplBlock "impl Show for Calc {}" namedImpl
      (some (onLine "type_identifier" (some "trait") 5 9 []))
      (onLine "type_identifier" (some "type") 14 18 []) (some "Show") "Calc" := by
    refine ⟨rfl, rfl, rfl, by decide +kernel, by decide +kernel,
      [onLine "impl" none 0 4 []], [onLine "for" none 10 13 []],
      [onLine "declaration_list" (some "body") 19 21 []], rfl, ?_⟩
    simp [onLine, Node.kind, collectedKinds]
  apply (impl_named_iff hblock).mpr
  simp [onLine, Node.kind, collectedKinds]

/-- The type that is implemented in `impl Show for &Calc {}`. -/
def referenceType : Node :=
  onLine "reference_type" (some "type") 14 19
    [onLine "&" none 14 15 [], onLine "type_identifier" (some "type") 15 19 []]

/-- The type that is implemented in `impl dyn Show { fn draw() {} }`. -/
def dynamicType : Node :=
  onLine "dynamic_type" (some "type") 5 13
    [onLine "dyn" none 5 8 [], onLine "type_identifier" (some "trait") 9 13 []]

/-- The tree of `impl Show for &Calc {}`. -/
def referenceImpl : Node :=
  onLine "impl_item" none 0 22
    [onLine "impl" none 0 4 [],
      onLine "type_identifier" (some "trait") 5 9 [],
      onLine "for" none 10 13 [],
      referenceType,
      onLine "declaration_list" (some "body") 20 22 []]

/-- The tree of `impl dyn Show { fn draw() {} }`. -/
def dynamicImpl : Node :=
  onLine "impl_item" none 0 30
    [onLine "impl" none 0 4 [],
      dynamicType,
      onLine "declaration_list" (some "body") 14 30
        [onLine "function_item" none 16 28
          [onLine "identifier" (some "name") 19 23 [],
            onLine "parameters" (some "parameters") 23 25 [],
            onLine "block" (some "body") 26 28 []]]]

theorem implBlock_referenceImpl :
  ImplBlock "impl Show for &Calc {}" referenceImpl
    (some (onLine "type_identifier" (some "trait") 5 9 [])) referenceType (some "Show") "&Calc"
  := by
  refine ⟨rfl, rfl, rfl, by decide +kernel, by decide +kernel,
    [onLine "impl" none 0 4 []], [onLine "for" none 10 13 []],
    [onLine "declaration_list" (some "body") 20 22 []], rfl, ?_⟩
  simp [onLine, Node.kind, collectedKinds]

theorem implBlock_dynamicImpl :
  ImplBlock "impl dyn Show { fn draw() {} }" dynamicImpl none dynamicType none "dyn Show"
  := by
  refine ⟨rfl, rfl, rfl, rfl, by decide +kernel, [onLine "impl" none 0 4 []], [], _, rfl, ?_⟩
  simp [onLine, Node.kind, collectedKinds]

/-- The block for a reference is reported as one of the trait, and the block of a dynamic type has
no name and is dropped. -/
theorem not_impl_named_reference :
  (ImplBlock "impl Show for &Calc {}" referenceImpl
        (some (onLine "type_identifier" (some "trait") 5 9 [])) referenceType (some "Show") "&Calc"
      ∧ extractName "impl Show for &Calc {}" referenceImpl .class_ .rust = .ok (some "impl Show")
      ∧ ¬ ImplNamed "impl Show for &Calc {}" referenceImpl (some "Show") "&Calc")
    ∧ (ImplBlock "impl dyn Show { fn draw() {} }" dynamicImpl none dynamicType none "dyn Show"
      ∧ extractName "impl dyn Show { fn draw() {} }" dynamicImpl .class_ .rust = .ok none
      ∧ ¬ ImplNamed "impl dyn Show { fn draw() {} }" dynamicImpl none "dyn Show")
  := by
  have hreference : extractName "impl Show for &Calc {}" referenceImpl .class_ .rust
      = .ok (some "impl Show") := by
    rfl
  have hdynamic : extractName "impl dyn Show { fn draw() {} }" dynamicImpl .class_ .rust
      = .ok none := by
    rfl
  constructor
  · use implBlock_referenceImpl, hreference
    intro h
    apply h.not_inherent "Show" rfl hreference
  · use implBlock_dynamicImpl, hdynamic
    intro h
    cases hdynamic.symm.trans h.named

end OrchestraRag
