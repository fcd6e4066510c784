import Mathlib.Data.List.Forall2
import Mathlib.Data.List.Nodup
import OrchestraRag.Parser.Walk

/-!
# Where names come from

The walk takes the name of a symbol from one node, at the end of a path of child indices.
`walkSites` are these paths for the symbols that the walk makes of a node, in order
(`carries_collectNodeSymbols`).  The walk reaches a node through nodes that it descends into
(`Reaches`), and a site is where the first node on the way that it does not descend into has its
name (`names_or_statement_of_mem`).
-/

namespace OrchestraRag

/-! ### Paths -/

/-- The indices of the children on the way down from a node. -/
abbrev Path : Type :=
  List ℕ

/-- The node at the end of a path. -/
def Node.follow : Path → Node → Option Node
  | [], node => some node
  | i :: path, node => (node.children[i]?).bind (follow path)

theorem Node.follow_append (path path' : Path) (node : Node) :
  node.follow (path ++ path') = (node.follow path).bind (Node.follow path')
  := by
  induction path generalizing node with
  | nil => rfl
  | cons i path ih =>
      rw [List.cons_append, Node.follow, Node.follow]
      cases node.children[i]? with
      | none => rfl
      | some child => apply ih

theorem Node.follow_singleton (i : ℕ) (node : Node) :
  node.follow [i] = node.children[i]?
  := by
  rw [Node.follow]
  cases node.children[i]? with
  | none => rfl
  | some child => rfl

/-- The text of every node of the tree can be read. -/
def Readable (source : String) (node : Node) : Prop :=
  ∀ path below, node.follow path = some below → nodeText source below ≠ none

theorem Readable.child {source : String} {node child : Node} {i : ℕ} (h : Readable source node)
    (hchild : node.children[i]? = some child) :
  Readable source child
  := by
  intro path below hbelow
  apply h (i :: path)
  rw [Node.follow, hchild]
  apply hbelow

theorem readable_of_children {source : String} {node : Node} (hnode : nodeText source node ≠ none)
    (hchildren : ∀ child ∈ node.children, Readable source child) :
  Readable source node
  := by
  intro path below hbelow
  cases path with
  | nil =>
      obtain rfl := Option.some.inj hbelow
      apply hnode
  | cons i path =>
      rw [Node.follow] at hbelow
      obtain ⟨child, hchild, hbelow⟩ := Option.bind_eq_some_iff.mp hbelow
      apply hchildren child (List.mem_of_getElem? hchild) path below hbelow

/-- The element at the first index that satisfies `p` is the first one that does. -/
theorem bind_findIdx? {α : Type} (p : α → Bool) (as : List α) :
  (as.findIdx? p).bind (fun i => as[i]?) = as.find? p
  := List.find?_eq_bind_findIdx?_getElem?.symm

/-! ### The site of a name -/

/-- The child that `extractNameFromNode` reads. -/
def nameSite (node : Node) : Option ℕ :=
  match node.children.findIdx? (fun child => child.fieldName == some "name") with
  | some i => some i
  | none => node.children.findIdx? (fun child =>
      ["identifier", "type_identifier", "package_identifier"].contains child.kind)

/-- The node that `extractDeclaredName` reads, of a node that is no Rust impl block. -/
def declaredSite (lang : LangCategory) (node : Node) : Option Path :=
  if lang = .go ∧ node.kind = "type_declaration" then
    match node.children.findIdx? (fun child => child.kind == "type_spec") with
    | some i => ((node.children[i]?).bind nameSite).map (fun j => [i, j])
    | none => (nameSite node).map (fun j => [j])
  else (nameSite node).map (fun j => [j])

variable {source : String} {lang : LangCategory} {parentKind : String} {node : Node}

theorem extractNameFromNode_eq (source : String) (node : Node) :
  extractNameFromNode source node
    = ((nameSite node).bind (fun i => node.children[i]?)).bind (nodeText source)
  := by
  have hfield := bind_findIdx? (fun child : Node => child.fieldName == some "name") node.children
  have hkind := bind_findIdx? (fun child : Node =>
    ["identifier", "type_identifier", "package_identifier"].contains child.kind) node.children
  rw [extractNameFromNode, nameSite, Node.childByFieldName, ← hfield, ← hkind]
  cases hname : node.children.findIdx? (fun child => child.fieldName == some "name") with
  | some i =>
      have hlt := (List.findIdx?_eq_some_iff_getElem.mp hname).1
      dsimp only [Option.bind_some]
      rw [List.getElem?_eq_getElem hlt]
      rfl
  | none =>
      dsimp only [Option.bind_none]
      cases node.children.findIdx? (fun child =>
          ["identifier", "type_identifier", "package_identifier"].contains child.kind) with
      | some i =>
          dsimp only [Option.bind_some]
          cases node.children[i]? with
          | none => rfl
          | some child => rfl
      | none => rfl

theorem exists_of_nameSite {i : ℕ} (h : nameSite node = some i) :
  ∃ child, node.children[i]? = some child
  := by
  rw [nameSite] at h
  have hlt : i < node.children.length := by
    split at h
    case h_1 j hj =>
        obtain rfl := Option.some.inj h
        apply (List.findIdx?_eq_some_iff_getElem.mp hj).1
    case h_2 => apply (List.findIdx?_eq_some_iff_getElem.mp h).1
  use node.children[i], List.getElem?_eq_getElem hlt

theorem exists_of_declaredSite {path : Path} (h : declaredSite lang node = some path) :
  ∃ named, node.follow path = some named
  := by
  have hdirect (h : (nameSite node).map (fun j => [j]) = some path) :
      ∃ named, node.follow path = some named := by
    obtain ⟨j, hj, rfl⟩ := Option.map_eq_some_iff.mp h
    rw [Node.follow_singleton]
    apply exists_of_nameSite hj
  rw [declaredSite] at h
  split at h
  case isTrue =>
      split at h
      case h_1 i hindex =>
          obtain ⟨j, hj, rfl⟩ := Option.map_eq_some_iff.mp h
          obtain ⟨spec, hspec, hj⟩ := Option.bind_eq_some_iff.mp hj
          rw [Node.follow, hspec, Option.bind_some, Node.follow_singleton]
          apply exists_of_nameSite hj
      case h_2 => apply hdirect h
  case isFalse => apply hdirect h

/-- The declared name is the text of the node at its site. -/
theorem extractDeclaredName_eq (hlang : lang ≠ .rust) :
  extractDeclaredName source node lang
    = ((declaredSite lang node).bind (fun path => node.follow path)).bind (nodeText source)
  := by
  have hdirect : extractNameFromNode source node
      = (((nameSite node).map (fun j => [j])).bind (fun path => node.follow path)).bind
        (nodeText source) := by
    rw [extractNameFromNode_eq, Option.bind_map]
    simp only [Function.comp_def, Node.follow_singleton]
  rw [extractDeclaredName, declaredSite]
  split
  case isTrue hgo =>
      have hspec := bind_findIdx? (fun child : Node => child.kind == "type_spec") node.children
      rw [Node.findChildByKind, ← hspec]
      cases hindex : node.children.findIdx? (fun child => child.kind == "type_spec") with
      | none => apply hdirect
      | some i =>
          have hlt := (List.findIdx?_eq_some_iff_getElem.mp hindex).1
          simp only [Option.bind_some, List.getElem?_eq_getElem hlt, Option.bind_map]
          rw [extractNameFromNode_eq]
          apply congrArg (Option.bind · (nodeText source))
          apply congrArg (Option.bind (nameSite node.children[i]))
          funext j
          rw [Function.comp_apply, Node.follow, List.getElem?_eq_getElem hlt, Option.bind_some,
            Node.follow_singleton]
  case isFalse hgo =>
      rw [if_neg (fun hand => hlang hand.1)]
      apply hdirect

/-- In a tree that can be read a node has a declared name exactly when the name has a site. -/
theorem extractDeclaredName_of_site {path : Path} (hlang : lang ≠ .rust)
    (hread : Readable source node) (h : declaredSite lang node = some path) :
  ∃ named name, node.follow path = some named ∧ nodeText source named = some name
    ∧ extractDeclaredName source node lang = some name
  := by
  have hfollow : ∃ named, node.follow path = some named := exists_of_declaredSite h
  obtain ⟨named, hnamed⟩ := hfollow
  obtain ⟨name, hname⟩ := Option.ne_none_iff_exists'.mp (hread path named hnamed)
  use named, name, hnamed, hname
  rw [extractDeclaredName_eq hlang, h, Option.bind_some, hnamed, Option.bind_some, hname]

theorem extractDeclaredName_of_no_site (hlang : lang ≠ .rust)
    (h : declaredSite lang node = none) :
  extractDeclaredName source node lang = none
  := by
  rw [extractDeclaredName_eq hlang, h]
  rfl

/-! ### The sites of the walk -/

mutual

/-- The paths of the nodes that name the symbols which the walk makes of a node; a statement is
named by itself. -/
def walkSites (lang : LangCategory) : Node → List Path
  | .mk kind fieldName range children =>
      match nodeKindToSymbol kind lang with
      | some symbolKind =>
          if IsStatement symbolKind then [[]]
          else
            match declaredSite lang (.mk kind fieldName range children) with
            | some path => [path]
            | none => childSites lang 0 children
      | none => childSites lang 0 children

/-- The sites in a list of children, the first of which has the index `i`. -/
def childSites (lang : LangCategory) (i : ℕ) : List Node → List Path
  | [] => []
  | node :: nodes => (walkSites lang node).map (fun path => i :: path) ++ childSites lang (i + 1) nodes

end

/-- A language of which no statement is an assignment and no name is put together. -/
def NamesNodes (lang : LangCategory) : Prop :=
  lang ≠ .rust ∧ lang ≠ .python

/-- The symbol has the text of the node at the site as its name, or is that of a statement. -/
def Carries (source : String) (node : Node) (sym : CodeSymbol) (site : Path) : Prop :=
  ∃ named, node.follow site = some named
    ∧ (IsStatement sym.kind ∨ nodeText source named = some sym.name)

theorem statement_of_statementText {text : String}
    (h : statementText source lang node = some text) :
  ∃ kind, nodeKindToSymbol node.kind lang = some kind ∧ IsStatement kind
  := by
  rw [statementText] at h
  split at h
  case h_1 kind hkind =>
      split at h
      case isTrue hstatement => exact ⟨kind, hkind, hstatement⟩
      case isFalse => cases h
  case h_2 => cases h

/-- The node is an import or export statement. -/
def Statement (lang : LangCategory) (node : Node) : Prop :=
  ∃ kind, nodeKindToSymbol node.kind lang = some kind ∧ IsStatement kind

/-- The node is a symbol of another kind, named by the node at a path. -/
def TakesName (lang : LangCategory) (node : Node) (path : Path) : Prop :=
  ∃ kind, nodeKindToSymbol node.kind lang = some kind ∧ ¬ IsStatement kind
    ∧ declaredSite lang node = some path

/-- The walk descends into the node: its kind is no symbol's, or it has no name. -/
def Passed (lang : LangCategory) (node : Node) : Prop :=
  ∀ kind, nodeKindToSymbol node.kind lang = some kind →
    ¬ IsStatement kind ∧ declaredSite lang node = none

theorem statement_or_takesName_or_passed (lang : LangCategory) (node : Node) :
  Statement lang node ∨ (∃ path, TakesName lang node path) ∨ Passed lang node
  := by
  cases hkind : nodeKindToSymbol node.kind lang with
  | none =>
      apply Or.inr (Or.inr _)
      intro kind hsome
      rw [hkind] at hsome
      cases hsome
  | some kind =>
      by_cases hstatement : IsStatement kind
      · exact Or.inl ⟨kind, hkind, hstatement⟩
      · apply Or.inr
        cases hsite : declaredSite lang node with
        | some path => exact Or.inl ⟨path, kind, hkind, hstatement, hsite⟩
        | none =>
            apply Or.inr
            intro kind' hkind'
            obtain rfl := Option.some.inj (hkind.symm.trans hkind')
            exact ⟨hstatement, hsite⟩

theorem Passed.not_takesName {path : Path} (h : Passed lang node) :
  ¬ TakesName lang node path
  := by
  rintro ⟨kind, hkind, -, hsite⟩
  rw [(h kind hkind).2] at hsite
  cases hsite

theorem walkSites_of_statement (h : Statement lang node) :
  walkSites lang node = [[]]
  := by
  obtain ⟨kind, hkind, hstatement⟩ := h
  obtain ⟨nodeKind, fieldName, range, children⟩ := node
  rw [Node.kind] at hkind
  rw [walkSites, hkind]
  apply if_pos hstatement

theorem walkSites_of_takesName {path : Path} (h : TakesName lang node path) :
  walkSites lang node = [path]
  := by
  obtain ⟨kind, hkind, hdefinition, hsite⟩ := h
  obtain ⟨nodeKind, fieldName, range, children⟩ := node
  rw [Node.kind] at hkind
  rw [walkSites, hkind]
  simp only [if_neg hdefinition, hsite]

theorem walkSites_of_passed (h : Passed lang node) :
  walkSites lang node = childSites lang 0 node.children
  := by
  obtain ⟨nodeKind, fieldName, range, children⟩ := node
  rw [walkSites]
  cases hkind : nodeKindToSymbol nodeKind lang with
  | none => rfl
  | some kind =>
      obtain ⟨hdefinition, hsite⟩ := h kind hkind
      simp only [if_neg hdefinition, hsite]
      rfl

/-- The walk makes one symbol of a node that it does not descend into. -/
theorem passed_or_walkSites_eq_singleton (lang : LangCategory) (node : Node) :
  Passed lang node ∨ ∃ site, walkSites lang node = [site]
  := by
  rcases statement_or_takesName_or_passed lang node with hstatement | ⟨path, htakes⟩ | hpassed
  · exact Or.inr ⟨[], walkSites_of_statement hstatement⟩
  · exact Or.inr ⟨path, walkSites_of_takesName htakes⟩
  · exact Or.inl hpassed

/-! ### Symbols carry names -/

theorem takesName_of_definitionName {name : String} (hlang : NamesNodes lang)
    (h : definitionName source lang node = some name) :
  ∃ path, TakesName lang node path
  := by
  obtain ⟨kind, hkind, hdefinition, hdeclared⟩ := of_definitionName h
  cases hpath : declaredSite lang node with
  | none =>
      rw [extractDeclaredName_of_no_site hlang.1 hpath] at hdeclared
      cases hdeclared
  | some path => exact ⟨path, kind, hkind, hdefinition, hpath⟩

theorem passed_of_neither (hlang : NamesNodes lang) (hread : Readable source node)
    (hstatement : statementText source lang node = none)
    (hname : definitionName source lang node = none) :
  Passed lang node
  := by
  intro kind hkind
  have hdefinition : ¬ IsStatement kind := by
    intro himport
    rw [statementText, hkind] at hstatement
    apply hread [] node rfl
    rw [← hstatement]
    apply (if_pos himport).symm
  use hdefinition
  by_contra hsite
  obtain ⟨path, hpath⟩ := Option.ne_none_iff_exists'.mp hsite
  obtain ⟨named, name, -, -, hdeclared⟩ := extractDeclaredName_of_site hlang.1 hread hpath
  rw [definitionName_eq hkind hdefinition, hdeclared] at hname
  cases hname

mutual

/-- The symbols that the walk makes of a node carry the names at its sites, in order. -/
theorem carries_collectNodeSymbols {parentKind : String} (hlang : NamesNodes lang) :
  ∀ {node : Node} {symbols : List CodeSymbol}, Readable source node →
    collectNodeSymbols source lang parentKind node = .ok symbols →
    List.Forall₂ (Carries source node) symbols (walkSites lang node)
  | .mk nodeKind fieldName range children, symbols, hread, h => by
      cases nodeWalk_of_collect h with
      | statement htext hkind =>
          rw [walkSites_of_statement (statement_of_statementText htext)]
          apply List.Forall₂.cons _ List.Forall₂.nil
          exact ⟨_, rfl, Or.inl hkind⟩
      | definition hstatement hkind hdefinition hbuild hname hsymkind =>
          obtain ⟨path, htakes⟩ := takesName_of_definitionName hlang hname
          obtain ⟨named, name, hnamed, htext, hdeclared⟩ :=
            extractDeclaredName_of_site hlang.1 hread htakes.choose_spec.2.2
          rw [definitionName_eq hkind hdefinition, hdeclared] at hname
          rw [walkSites_of_takesName htakes]
          apply List.Forall₂.cons _ List.Forall₂.nil
          exact ⟨named, hnamed, Or.inr (htext.trans hname)⟩
      | assignment hstatement hname hassigned =>
          rw [assignedName, if_neg (fun hand => hlang.2 hand.1)] at hassigned
          cases hassigned
      | descend hstatement hname hassigned hchildren =>
          rw [walkSites_of_passed (passed_of_neither hlang hread hstatement hname)]
          apply carries_collectChildSymbols hlang _ hread hchildren
          intro j
          rw [Nat.zero_add]

theorem carries_collectChildSymbols {parentKind : String} (hlang : NamesNodes lang) :
  ∀ {i : ℕ} {nodes : List Node} {symbols : List CodeSymbol} {parent : Node},
    (∀ j, parent.children[i + j]? = nodes[j]?) → Readable source parent →
    collectChildSymbols source lang parentKind nodes = .ok symbols →
    List.Forall₂ (Carries source parent) symbols (childSites lang i nodes)
  | i, [], symbols, parent, hnodes, hread, h => by
      rw [collectChildSymbols] at h
      obtain rfl := Except.ok.inj h
      rw [childSites]
      apply List.Forall₂.nil
  | i, node :: nodes, symbols, parent, hnodes, hread, h => by
      rw [collectChildSymbols] at h
      obtain ⟨part, hpart, h⟩ := Outcome.bind_eq_ok.mp h
      obtain ⟨rest, hrest, h⟩ := Outcome.bind_eq_ok.mp h
      obtain rfl := Except.ok.inj h
      have hnode : parent.children[i]? = some node := hnodes 0
      rw [childSites]
      apply List.rel_append
      · rw [List.forall₂_map_right_iff]
        apply (carries_collectNodeSymbols hlang (hread.child hnode) hpart).imp
        rintro sym site ⟨named, hnamed, hname⟩
        refine ⟨named, ?_, hname⟩
        rw [Node.follow, hnode, Option.bind_some, hnamed]
      · apply carries_collectChildSymbols hlang _ hread hrest
        intro j
        rw [Nat.add_assoc, Nat.add_comm 1 j]
        apply hnodes (j + 1)

end

/-! ### Which sites there are -/

theorem mem_childSites {i : ℕ} {nodes : List Node} {site : Path} :
  site ∈ childSites lang i nodes
    ↔ ∃ j child path, nodes[j]? = some child ∧ site = (i + j) :: path
      ∧ path ∈ walkSites lang child
  := by
  induction nodes generalizing i with
  | nil =>
      rw [childSites]
      apply iff_of_false List.not_mem_nil
      rintro ⟨j, child, path, hchild, -⟩
      rw [List.getElem?_nil] at hchild
      cases hchild
  | cons node nodes ih =>
      rw [childSites, List.mem_append, List.mem_map, ih]
      constructor
      · rintro (⟨path, hpath, rfl⟩ | ⟨j, child, path, hchild, rfl, hpath⟩)
        · exact ⟨0, node, path, rfl, rfl, hpath⟩
        · refine ⟨j + 1, child, path, hchild, ?_, hpath⟩
          rw [Nat.add_assoc, Nat.add_comm 1 j]
      · rintro ⟨j, child, path, hchild, rfl, hpath⟩
        cases j with
        | zero =>
            obtain rfl := Option.some.inj hchild
            exact Or.inl ⟨path, hpath, rfl⟩
        | succ j =>
            refine Or.inr ⟨j, child, path, hchild, ?_, hpath⟩
            rw [Nat.add_assoc, Nat.add_comm 1 j]

/-! ### Reached nodes -/

/-- The walk of a node reaches the node at the end of a path, through nodes that it descends
into. -/
inductive Reaches (lang : LangCategory) : Node → Path → Node → Prop
  | here {node : Node} : Reaches lang node [] node
  | through {node child target : Node} {i : ℕ} {path : Path} :
      Passed lang node → node.children[i]? = some child → Reaches lang child path target →
      Reaches lang node (i :: path) target

namespace Reaches

theorem follow {target : Node} {path : Path} (h : Reaches lang node path target) :
  node.follow path = some target
  := by
  induction h with
  | here => rfl
  | through hpassed hchild hreaches ih =>
      rw [Node.follow, hchild]
      apply ih

/-- The walk descends into a node that it goes through. -/
theorem passed {target : Node} {path : Path} (h : Reaches lang node path target)
    (hne : path ≠ []) :
  Passed lang node
  := by
  cases h with
  | here => cases hne rfl
  | through hpassed => apply hpassed

theorem append {middle target : Node} {path path' : Path} (h : Reaches lang node path middle)
    (h' : Reaches lang middle path' target) :
  Reaches lang node (path ++ path') target
  := by
  induction h with
  | here => apply h'
  | through hpassed hchild hreaches ih => apply (ih h').through hpassed hchild

theorem of_append {target : Node} {path path' : Path}
    (h : Reaches lang node (path ++ path') target) :
  ∃ middle, Reaches lang node path middle ∧ Reaches lang middle path' target
  := by
  induction path generalizing node with
  | nil => exact ⟨node, here, h⟩
  | cons i path ih =>
      cases h with
      | through hpassed hchild hreaches =>
          obtain ⟨middle, hmiddle, htarget⟩ := ih hreaches
          exact ⟨middle, hmiddle.through hpassed hchild, htarget⟩

/-- The walk reaches a node when it descends into all that are above it. -/
theorem of_passed {target : Node} {path : Path} (hfollow : node.follow path = some target)
    (h : ∀ start i tail above, path = start ++ i :: tail → node.follow start = some above →
      Passed lang above) :
  Reaches lang node path target
  := by
  induction path generalizing node with
  | nil =>
      obtain rfl := Option.some.inj hfollow
      apply here
  | cons i path ih =>
      have hpassed := h [] i path node rfl rfl
      rw [Node.follow] at hfollow
      obtain ⟨child, hchild, hfollow⟩ := Option.bind_eq_some_iff.mp hfollow
      apply through hpassed hchild
      apply ih hfollow
      intro start j tail above hpath habove
      apply h (i :: start) j tail above
      · rw [hpath, List.cons_append]
      · rw [Node.follow, hchild]
        apply habove

/-- The sites of a reached node are sites of the walk. -/
theorem append_mem_walkSites {target : Node} {path site : Path}
    (h : Reaches lang node path target) :
  path ++ site ∈ walkSites lang node ↔ site ∈ walkSites lang target
  := by
  induction h with
  | here => rfl
  | @through node child target i path hpassed hchild hreaches ih =>
      rw [walkSites_of_passed hpassed, mem_childSites, ← ih]
      constructor
      · rintro ⟨j, child', path', hchild', hpath, hmem⟩
        rw [Nat.zero_add, List.cons_append] at hpath
        obtain ⟨rfl, rfl⟩ := List.cons.inj hpath
        obtain rfl := Option.some.inj (hchild.symm.trans hchild')
        apply hmem
      · intro hmem
        refine ⟨i, child, path ++ site, hchild, ?_, hmem⟩
        rw [Nat.zero_add, List.cons_append]

end Reaches

/-- The first node on the way to the end of the path that the walk does not descend into is
named by the node there. -/
def Names (lang : LangCategory) (node : Node) (site : Path) : Prop :=
  ∃ path rest owner, site = path ++ rest ∧ Reaches lang node path owner
    ∧ TakesName lang owner rest

theorem Names.mem_walkSites {site : Path} (h : Names lang node site) :
  site ∈ walkSites lang node
  := by
  obtain ⟨path, rest, owner, rfl, hreaches, htakes⟩ := h
  rw [hreaches.append_mem_walkSites, walkSites_of_takesName htakes]
  apply List.mem_cons_self

theorem mem_walkSites_of_passed {i : ℕ} {site : Path} (hpassed : Passed lang node)
    (h : i :: site ∈ walkSites lang node) :
  ∃ child, node.children[i]? = some child ∧ site ∈ walkSites lang child
  := by
  rw [walkSites_of_passed hpassed, mem_childSites] at h
  obtain ⟨j, child, path, hchild, hpath, hmem⟩ := h
  rw [Nat.zero_add] at hpath
  obtain ⟨rfl, rfl⟩ := List.cons.inj hpath
  exact ⟨child, hchild, hmem⟩

/-- A site of the walk names a symbol, or is a statement. -/
theorem names_or_statement_of_mem {site : Path} (h : site ∈ walkSites lang node) :
  Names lang node site ∨ ∃ statement, Reaches lang node site statement
    ∧ Statement lang statement
  := by
  induction site generalizing node with
  | nil =>
      rcases statement_or_takesName_or_passed lang node with hstatement | ⟨path, htakes⟩ | hpassed
      · exact Or.inr ⟨node, Reaches.here, hstatement⟩
      · rw [walkSites_of_takesName htakes, List.mem_singleton] at h
        exact Or.inl ⟨[], [], node, rfl, Reaches.here, h ▸ htakes⟩
      · rw [walkSites_of_passed hpassed, mem_childSites] at h
        obtain ⟨j, child, path, -, hpath, -⟩ := h
        cases hpath
  | cons i site ih =>
      rcases statement_or_takesName_or_passed lang node with hstatement | ⟨path, htakes⟩ | hpassed
      · rw [walkSites_of_statement hstatement, List.mem_singleton] at h
        cases h
      · rw [walkSites_of_takesName htakes, List.mem_singleton] at h
        exact Or.inl ⟨[], i :: site, node, rfl, Reaches.here, h ▸ htakes⟩
      · obtain ⟨child, hchild, hmem⟩ := mem_walkSites_of_passed hpassed h
        rcases ih hmem with ⟨path, rest, owner, rfl, hreaches, htakes⟩ | ⟨statement, hreaches, hkind⟩
        · exact Or.inl ⟨i :: path, rest, owner, rfl, hreaches.through hpassed hchild, htakes⟩
        · exact Or.inr ⟨statement, hreaches.through hpassed hchild, hkind⟩

/-- The walk descends into a node with two sites. -/
theorem passed_of_ne {site other : Path} (hsite : site ∈ walkSites lang node)
    (hother : other ∈ walkSites lang node) (hne : site ≠ other) :
  Passed lang node
  := by
  apply (passed_or_walkSites_eq_singleton lang node).resolve_right
  rintro ⟨single, hsingle⟩
  rw [hsingle, List.mem_singleton] at hsite hother
  apply hne (hsite.trans hother.symm)

/-- The walk descends into a node without sites. -/
theorem passed_of_walkSites_eq_nil (h : walkSites lang node = []) :
  Passed lang node
  := by
  apply (passed_or_walkSites_eq_singleton lang node).resolve_right
  rintro ⟨single, hsingle⟩
  rw [h] at hsingle
  cases hsingle

/-- Where two sites part, the walk reaches the nodes below. -/
theorem reaches_of_part {start tail rest : Path} {i k : ℕ}
    (hsite : start ++ i :: tail ∈ walkSites lang node)
    (hother : start ++ k :: rest ∈ walkSites lang node) (hne : i ≠ k) :
  ∃ target, Reaches lang node (start ++ [k]) target ∧ rest ∈ walkSites lang target
  := by
  have hpaths (start : Path) : start ++ i :: tail ≠ start ++ k :: rest := by
    intro heq
    apply hne (List.cons.inj (List.append_cancel_left heq)).1
  induction start generalizing node with
  | nil =>
      have hpassed := passed_of_ne hsite hother (hpaths [])
      obtain ⟨child, hchild, hrest⟩ := mem_walkSites_of_passed hpassed hother
      exact ⟨child, Reaches.here.through hpassed hchild, hrest⟩
  | cons a start ih =>
      have hpassed := passed_of_ne hsite hother (hpaths (a :: start))
      obtain ⟨child, hchild, hsite⟩ := mem_walkSites_of_passed hpassed hsite
      obtain ⟨child', hchild', hother⟩ := mem_walkSites_of_passed hpassed hother
      obtain rfl := Option.some.inj (hchild.symm.trans hchild')
      obtain ⟨target, hreaches, hrest⟩ := ih hsite hother
      exact ⟨target, hreaches.through hpassed hchild, hrest⟩

/-- No symbol is made of a tree exactly when the walk descends everywhere. -/
theorem walkSites_eq_nil_iff :
  walkSites lang node = []
    ↔ ∀ path below, node.follow path = some below → Passed lang below
  := by
  constructor
  · intro hnil path
    induction path generalizing node with
    | nil =>
        intro below hbelow
        obtain rfl := Option.some.inj hbelow
        apply passed_of_walkSites_eq_nil hnil
    | cons i path ih =>
        intro below hbelow
        rw [Node.follow] at hbelow
        obtain ⟨child, hchild, hbelow⟩ := Option.bind_eq_some_iff.mp hbelow
        apply ih _ below hbelow
        apply List.eq_nil_iff_forall_not_mem.mpr
        intro site hsite
        have hreaches := Reaches.here.through (passed_of_walkSites_eq_nil hnil) hchild
        have hmem := hreaches.append_mem_walkSites.mpr hsite
        rw [hnil] at hmem
        cases hmem
  · intro hall
    apply List.eq_nil_iff_forall_not_mem.mpr
    intro site hsite
    rcases names_or_statement_of_mem hsite with ⟨path, rest, owner, -, hreaches, htakes⟩
      | ⟨statement, hreaches, hstatement⟩
    · apply (hall path owner hreaches.follow).not_takesName htakes
    · obtain ⟨kind, hkind, hstatement⟩ := hstatement
      apply (hall site statement hreaches.follow kind hkind).1 hstatement

mutual

/-- No two symbols of the walk have one site. -/
theorem nodup_walkSites (lang : LangCategory) :
  ∀ node, (walkSites lang node).Nodup
  | .mk kind fieldName range children => by
      rcases passed_or_walkSites_eq_singleton lang (.mk kind fieldName range children) with
        hpassed | ⟨site, hsingle⟩
      · rw [walkSites_of_passed hpassed]
        apply nodup_childSites lang 0 children
      · rw [hsingle]
        apply List.nodup_singleton

theorem nodup_childSites (lang : LangCategory) (i : ℕ) :
  ∀ nodes, (childSites lang i nodes).Nodup
  | [] => by
      rw [childSites]
      apply List.nodup_nil
  | node :: nodes => by
      rw [childSites]
      apply List.Nodup.append
      · apply (nodup_walkSites lang node).map
        intro path path' heq
        apply List.cons.inj heq |>.2
      · apply nodup_childSites lang (i + 1) nodes
      · intro site hsite hrest
        obtain ⟨path, -, rfl⟩ := List.mem_map.mp hsite
        obtain ⟨j, child, path', -, heq, -⟩ := mem_childSites.mp hrest
        have hindex := (List.cons.inj heq).1
        omega

end

end OrchestraRag
