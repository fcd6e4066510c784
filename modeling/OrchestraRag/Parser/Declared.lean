import OrchestraRag.Parser.Sites

/-!
# Declared names

The identifiers of a declaration are one or more levels down, in its declarators.  The walk takes
the name of a declaration from its own children, so only a Go type declaration of one type, and a
C function whose last declarator is a symbol while nothing above it has a name, give each
identifier its symbol (`declaredNames_iff`).
-/

namespace OrchestraRag

variable {source : String} {lang : LangCategory} {parentKind : String} {node : Node}
  {site : Path}

/-! ### Declarations -/

/-- The kinds of nodes between a declaration and its identifiers, with the field that leads on,
where only one does. -/
def declaratorFields : List (String × Option String) :=
  [("variable_declarator", some "name"), ("object_pattern", none), ("array_pattern", none),
    ("rest_pattern", none), ("pair_pattern", some "value"), ("assignment_pattern", some "left"),
    ("object_assignment_pattern", some "left"), ("var_spec_list", none),
    ("var_spec", some "name"), ("const_spec", some "name"), ("type_spec", some "name"),
    ("type_alias", some "name"), ("function_declarator", some "declarator"),
    ("pointer_declarator", some "declarator"), ("array_declarator", some "declarator"),
    ("reference_declarator", none), ("parenthesized_declarator", none),
    ("attributed_declarator", none), ("qualified_identifier", some "name"),
    ("template_function", some "name")]

theorem lookup_of_mem_declaratorFields {kind : String} {field : Option String}
    (h : (kind, field) ∈ declaratorFields) :
  declaratorFields.lookup kind = some field
  := by
  have hall : ∀ entry ∈ declaratorFields, declaratorFields.lookup entry.1 = some entry.2 := by
    decide
  apply hall (kind, field) h

/-- The kinds of nodes that are identifiers. -/
def identifierKinds : List String :=
  ["identifier", "type_identifier", "field_identifier", "shorthand_property_identifier_pattern",
    "destructor_name", "operator_name"]

/-- The path leads from a declarator down to an identifier. -/
inductive Declarators : Node → Path → Prop
  | identifier {node : Node} : node.kind ∈ identifierKinds → Declarators node []
  | declarator {node child : Node} {field : Option String} {i : ℕ} {path : Path} :
      (node.kind, field) ∈ declaratorFields → field = none ∨ child.fieldName = field →
      node.children[i]? = some child → Declarators child path → Declarators node (i :: path)

/-- The path leads from a declaration through its declarators to an identifier. -/
def Declared (node : Node) (site : Path) : Prop :=
  ∃ i j path child, site = i :: j :: path ∧ node.children[i]? = some child
    ∧ Declarators child (j :: path)

/-- The path `type` leads to a type beside the way to the end of another path. -/
def Beside (node : Node) (site type : Path) (typed : Node) : Prop :=
  ∃ start i tail k holder, site = start ++ i :: tail ∧ type = start ++ [k] ∧ i ≠ k
    ∧ node.follow start = some holder ∧ holder.children[k]? = some typed
    ∧ typed.fieldName = some "type"

/-- Each declared identifier is the site of one symbol, and no site is in its type. -/
def OnePerIdentifier (node : Node) (sites : List Path) : Prop :=
  ∀ site, Declared node site → sites.count site = 1
    ∧ ∀ type typed, Beside node site type typed → ∀ named ∈ sites, ¬ type <+: named

theorem OnePerIdentifier.mem {sites : List Path} (h : OnePerIdentifier node sites)
    (hdeclared : Declared node site) :
  site ∈ sites
  := by
  apply List.count_pos_iff.mp
  rw [(h site hdeclared).1]
  apply Nat.one_pos

/-- The walk makes of a declaration one symbol for each declared identifier, with its text as the
name, and none for its type. -/
def DeclaredNames (source : String) (lang : LangCategory) (parentKind : String) (node : Node) :
    Prop :=
  ∃ symbols, collectNodeSymbols source lang parentKind node = .ok symbols
    ∧ List.Forall₂ (Carries source node) symbols (walkSites lang node)
    ∧ OnePerIdentifier node (walkSites lang node)

/-! ### The way to an identifier -/

/-- Every node above the identifier is a declarator. -/
theorem Declarators.kind_of_follow {path rest : Path} {i : ℕ} {child owner : Node}
    (h : Declarators child (path ++ i :: rest)) (howner : child.follow path = some owner) :
  ∃ field, (owner.kind, field) ∈ declaratorFields
  := by
  induction path generalizing child with
  | nil =>
      obtain rfl := Option.some.inj howner
      cases h with
      | declarator hfield => exact ⟨_, hfield⟩
  | cons j path ih =>
      cases h with
      | declarator hfield hname hchild hbelow =>
          rw [Node.follow, hchild] at howner
          apply ih hbelow howner

theorem Declarators.kind_of_follow_path {path : Path} {child named : Node}
    (h : Declarators child path) (hnamed : child.follow path = some named) :
  named.kind ∈ identifierKinds
  := by
  induction h with
  | identifier hkind =>
      obtain rfl := Option.some.inj hnamed
      apply hkind
  | declarator hfield hname hchild hbelow ih =>
      rw [Node.follow, hchild] at hnamed
      apply ih hnamed

/-- The languages that have the declarations. -/
def declarationLanguages : List LangCategory :=
  [.javaScript, .typeScript, .go, .java, .generic]

/-- No identifier is a statement. -/
theorem not_statement_of_identifier (hlang : lang ∈ declarationLanguages)
    (hkind : node.kind ∈ identifierKinds) :
  ¬ Statement lang node
  := by
  have hall : ∀ lang ∈ declarationLanguages, ∀ kind ∈ identifierKinds,
      nodeKindToSymbol kind lang ≠ some .import_ ∧ nodeKindToSymbol kind lang ≠ some .export_ := by
    decide +kernel
  obtain ⟨himport, hexport⟩ := hall lang hlang node.kind hkind
  rintro ⟨kind, hsome, rfl | rfl⟩
  · apply himport hsome
  · apply hexport hsome

theorem declarator_of_not_generic {field : Option String} (hlang : lang ∈ declarationLanguages)
    (hgeneric : lang ≠ .generic) {kind : String} (hkind : (kind, field) ∈ declaratorFields) :
  nodeKindToSymbol kind lang = none
  := by
  have hall : ∀ lang ∈ declarationLanguages, lang ≠ .generic → ∀ entry ∈ declaratorFields,
      nodeKindToSymbol entry.1 lang = none := by
    decide +kernel
  apply hall lang hlang hgeneric (kind, field) hkind

/-! ### Which identifiers are names -/

theorem Declared.follow {named : Node} (h : Declared node site)
    (hnamed : node.follow site = some named) :
  named.kind ∈ identifierKinds
  := by
  obtain ⟨i, j, path, child, rfl, hchild, hdeclarators⟩ := h
  rw [Node.follow, hchild] at hnamed
  apply hdeclarators.kind_of_follow_path hnamed

/-- An identifier is a site of the walk exactly when it names a symbol. -/
theorem Declared.mem_walkSites_iff (h : Declared node site) (hlang : lang ∈ declarationLanguages) :
  site ∈ walkSites lang node ↔ Names lang node site
  := by
  constructor
  · intro hsite
    rcases names_or_statement_of_mem hsite with hnames | ⟨statement, hreaches, hstatement⟩
    · apply hnames
    · have hkind := h.follow hreaches.follow
      cases not_statement_of_identifier hlang hkind hstatement
  · apply Names.mem_walkSites

theorem Beside.exists_part {type : Path} {typed : Node} (h : Beside node site type typed) :
  (∃ start i tail k, site = start ++ i :: tail ∧ type = start ++ [k] ∧ i ≠ k)
    ∧ node.follow type = some typed
  := by
  obtain ⟨start, i, tail, k, holder, hsite, rfl, hne, hholder, htyped, -⟩ := h
  refine ⟨⟨start, i, tail, k, hsite, rfl, hne⟩, ?_⟩
  rw [Node.follow_append, hholder, Option.bind_some, Node.follow_singleton, htyped]

/-- A type beside an identifier that names a symbol has no site in it exactly when the walk does
not reach it, or descends everywhere in it. -/
theorem not_isPrefix_iff {type : Path} {typed : Node} (hsite : site ∈ walkSites lang node)
    (htype : Beside node site type typed) :
  (∀ named ∈ walkSites lang node, ¬ type <+: named)
    ↔ (Reaches lang node type typed →
      ∀ path below, typed.follow path = some below → Passed lang below)
  := by
  obtain ⟨⟨start, i, tail, k, rfl, rfl, hne⟩, hfollow⟩ := htype.exists_part
  constructor
  · intro hnone hreaches
    apply walkSites_eq_nil_iff.mp
    apply List.eq_nil_iff_forall_not_mem.mpr
    intro path hpath
    apply hnone _ (hreaches.append_mem_walkSites.mpr hpath)
    apply List.prefix_append
  · rintro hdescends named hnamed ⟨rest, rfl⟩
    rw [List.append_assoc] at hnamed
    obtain ⟨target, hreaches, hrest⟩ := reaches_of_part hsite hnamed hne
    obtain rfl := Option.some.inj (hfollow.symm.trans hreaches.follow)
    rw [walkSites_eq_nil_iff.mpr (hdescends hreaches)] at hrest
    cases hrest

/-- What the walk needs to make one symbol of each identifier: the identifier names the first
symbol on the way to it, and the walk descends everywhere in the types that it reaches. -/
theorem onePerIdentifier_iff (hlang : lang ∈ declarationLanguages) :
  OnePerIdentifier node (walkSites lang node)
    ↔ ∀ site, Declared node site → Names lang node site
      ∧ ∀ type typed, Beside node site type typed → Reaches lang node type typed →
        ∀ path below, typed.follow path = some below → Passed lang below
  := by
  constructor
  · intro hone site hdeclared
    have hsite := hone.mem hdeclared
    use (hdeclared.mem_walkSites_iff hlang).mp hsite
    intro type typed htype
    apply (not_isPrefix_iff hsite htype).mp ((hone site hdeclared).2 type typed htype)
  · intro hall site hdeclared
    obtain ⟨hnames, htypes⟩ := hall site hdeclared
    have hsite := hnames.mem_walkSites
    use List.count_eq_one_of_mem (nodup_walkSites lang node) hsite
    intro type typed htype
    apply (not_isPrefix_iff hsite htype).mpr (htypes type typed htype)

/-- What the walk needs to make the symbols of a declaration. -/
theorem declaredNames_iff_onePerIdentifier (hnames : NamesNodes lang)
    (hread : Readable source node) :
  DeclaredNames source lang parentKind node
    ↔ (∀ text ∈ importTexts source lang parentKind node, Cuttable text)
      ∧ OnePerIdentifier node (walkSites lang node)
  := by
  have hok := collectNodeSymbols_okIff source lang parentKind node
  constructor
  · rintro ⟨symbols, hsymbols, -, hone⟩
    refine ⟨?_, hone⟩
    by_contra hcut
    cases (hok.panicked hcut).symm.trans hsymbols
  · rintro ⟨hcut, hone⟩
    obtain ⟨symbols, hsymbols⟩ := hok.ok hcut
    exact ⟨symbols, hsymbols, carries_collectNodeSymbols hnames hread hsymbols, hone⟩

/-! ### The names of the languages with their own tables -/

/-- Every node on the way to a declared identifier is the declaration or a declarator. -/
theorem Declared.kind_of_follow {path rest : Path} {i : ℕ} {above : Node}
    (h : Declared node (path ++ i :: rest)) (habove : node.follow path = some above) :
  above = node ∨ ∃ field, (above.kind, field) ∈ declaratorFields
  := by
  cases path with
  | nil => exact Or.inl (Option.some.inj habove).symm
  | cons j path =>
      obtain ⟨i', j', tail, child, hsite, hchild, hdeclarators⟩ := h
      rw [List.cons_append] at hsite
      obtain ⟨rfl, htail⟩ := List.cons.inj hsite
      rw [← htail] at hdeclarators
      rw [Node.follow, hchild] at habove
      apply Or.inr (hdeclarators.kind_of_follow habove)

theorem of_declaredSite (h : declaredSite lang node = some site) :
  (∃ j, site = [j]) ∨ lang = .go ∧ node.kind = "type_declaration" ∧ ∃ i j, site = [i, j]
  := by
  have hdirect (h : (nameSite node).map (fun j => [j]) = some site) : ∃ j, site = [j] := by
    obtain ⟨j, -, rfl⟩ := Option.map_eq_some_iff.mp h
    use j
  rw [declaredSite] at h
  split at h
  case isTrue hgo =>
      split at h
      case h_1 i hindex =>
          obtain ⟨j, -, rfl⟩ := Option.map_eq_some_iff.mp h
          exact Or.inr ⟨hgo.1, hgo.2, i, j, rfl⟩
      case h_2 => exact Or.inl (hdirect h)
  case isFalse => exact Or.inl (hdirect h)

theorem exists_cons_of_declaredSite (h : declaredSite lang node = some site) :
  ∃ j rest, site = j :: rest
  := by
  rcases of_declaredSite h with ⟨j, rfl⟩ | ⟨-, -, i, j, rfl⟩
  · use j, []
  · use i, [j]

/-- In a language with its own table only the declaration itself can take a declared identifier as
its name. -/
theorem Declared.names_iff (h : Declared node site) (hlang : lang ∈ declarationLanguages)
    (hgeneric : lang ≠ .generic) :
  Names lang node site ↔ TakesName lang node site
  := by
  constructor
  · rintro ⟨path, rest, owner, rfl, hreaches, htakes⟩
    cases hreaches with
    | here => apply htakes
    | @through _ child _ i path hpassed hchild hbelow =>
        obtain ⟨kind, hkind, hdefinition, hrest⟩ := htakes
        obtain ⟨k, rest, rfl⟩ := exists_cons_of_declaredSite hrest
        have hreaches := hbelow.through hpassed hchild
        rcases h.kind_of_follow hreaches.follow with rfl | ⟨field, hfield⟩
        · apply absurd ⟨kind, hkind, hdefinition, hrest⟩ hpassed.not_takesName
        · rw [declarator_of_not_generic hlang hgeneric hfield] at hkind
          cases hkind
  · intro htakes
    exact ⟨[], site, node, rfl, Reaches.here, htakes⟩

/-- A name of one level is that of no declared identifier. -/
theorem Declared.declaredSite_ne (h : Declared node site)
    (hgo : ¬ (lang = .go ∧ node.kind = "type_declaration")) :
  declaredSite lang node ≠ some site
  := by
  intro hsite
  obtain ⟨i, j, tail, -, rfl, -⟩ := h
  rcases of_declaredSite hsite with ⟨k, hpath⟩ | ⟨rfl, hkind, -⟩
  · cases hpath
  · apply hgo ⟨rfl, hkind⟩

/-- The declarations of the languages with their own tables, but for Go types. -/
def plainDeclarations : List (LangCategory × String) :=
  [(.javaScript, "lexical_declaration"), (.javaScript, "variable_declaration"),
    (.typeScript, "lexical_declaration"), (.typeScript, "variable_declaration"),
    (.go, "var_declaration"), (.go, "const_declaration"), (.java, "field_declaration")]

theorem of_mem_plainDeclarations (h : (lang, node.kind) ∈ plainDeclarations) :
  lang ∈ declarationLanguages ∧ lang ≠ .generic
    ∧ ¬ (lang = .go ∧ node.kind = "type_declaration")
  := by
  have hall : ∀ entry ∈ plainDeclarations, entry.1 ∈ declarationLanguages ∧ entry.1 ≠ .generic
      ∧ ¬ (entry.1 = .go ∧ entry.2 = "type_declaration") := by
    decide
  apply hall (lang, node.kind) h

theorem namesNodes_of_mem (hlang : lang ∈ declarationLanguages) :
  NamesNodes lang
  := by
  have hall : ∀ lang ∈ declarationLanguages, lang ≠ .rust ∧ lang ≠ .python := by decide
  apply hall lang hlang

theorem onePerIdentifier_plain_iff (h : (lang, node.kind) ∈ plainDeclarations) :
  OnePerIdentifier node (walkSites lang node) ↔ ∀ site, ¬ Declared node site
  := by
  obtain ⟨hlang, hgeneric, hgo⟩ := of_mem_plainDeclarations h
  rw [onePerIdentifier_iff hlang]
  constructor
  · intro hall site hdeclared
    obtain ⟨hnames, -⟩ := hall site hdeclared
    obtain ⟨-, -, -, hsite⟩ := (hdeclared.names_iff hlang hgeneric).mp hnames
    apply hdeclared.declaredSite_ne hgo hsite
  · intro hnone site hdeclared
    apply absurd hdeclared (hnone site)

/-- The identifier is the name of the first type of a Go declaration. -/
def FirstType (node : Node) (site : Path) : Prop :=
  ∃ i j spec, site = [i, j]
    ∧ node.children.findIdx? (fun child => child.kind == "type_spec") = some i
    ∧ node.children[i]? = some spec ∧ nameSite spec = some j

theorem Declared.declaredSite_eq_iff (h : Declared node site)
    (hkind : node.kind = "type_declaration") :
  declaredSite .go node = some site ↔ FirstType node site
  := by
  rw [declaredSite, if_pos ⟨rfl, hkind⟩]
  constructor
  · intro hsite
    split at hsite
    case h_1 i hindex =>
        obtain ⟨j, hname, rfl⟩ := Option.map_eq_some_iff.mp hsite
        obtain ⟨spec, hspec, hname⟩ := Option.bind_eq_some_iff.mp hname
        exact ⟨i, j, spec, rfl, hindex, hspec, hname⟩
    case h_2 =>
        obtain ⟨j, -, rfl⟩ := Option.map_eq_some_iff.mp hsite
        obtain ⟨i, k, path, child, hpath, -⟩ := h
        cases hpath
  · rintro ⟨i, j, spec, rfl, hindex, hspec, hname⟩
    simp only [hindex, hspec, Option.bind_some, hname, Option.map_some]

/-- A Go type declaration is named by the first type in it. -/
theorem onePerIdentifier_type_iff (hkind : node.kind = "type_declaration") :
  OnePerIdentifier node (walkSites .go node) ↔ ∀ site, Declared node site → FirstType node site
  := by
  have hlang : LangCategory.go ∈ declarationLanguages := by decide
  have hgeneric : LangCategory.go ≠ .generic := by decide
  have htype : nodeKindToSymbol node.kind .go = some .type := by
    rw [hkind]
    rfl
  rw [onePerIdentifier_iff hlang]
  constructor
  · intro hall site hdeclared
    obtain ⟨hnames, -⟩ := hall site hdeclared
    obtain ⟨-, -, -, hsite⟩ := (hdeclared.names_iff hlang hgeneric).mp hnames
    apply (hdeclared.declaredSite_eq_iff hkind).mp hsite
  · intro hall site hdeclared
    have hsite := (hdeclared.declaredSite_eq_iff hkind).mpr (hall site hdeclared)
    have htakes : TakesName .go node site := ⟨.type, htype, by decide, hsite⟩
    use (hdeclared.names_iff hlang hgeneric).mpr htakes
    intro type typed hbeside hreaches
    obtain ⟨⟨start, i, tail, k, -, rfl, -⟩, -⟩ := hbeside.exists_part
    have hpassed := hreaches.passed (List.append_ne_nil_of_right_ne_nil start (List.cons_ne_nil k []))
    apply absurd htakes hpassed.not_takesName

/-! ### The names of C functions -/

/-- The kinds of nodes of a C function that are symbols, if they have a name. -/
def functionKinds : List String :=
  ["function_definition", "function_declarator", "template_function"]

/-- The identifier is the name of the last declarator of a C function, at the end of the path
`path`, and no function or declarator above it has a name. -/
def LastDeclarator (node : Node) (path : Path) (j : ℕ) : Prop :=
  (∃ last, node.follow path = some last ∧ last.kind ∈ functionKinds ∧ nameSite last = some j)
    ∧ ∀ start i tail above, path = start ++ i :: tail → node.follow start = some above →
      above.kind ∈ functionKinds → nameSite above = none

/-- No node of the types beside the path is a symbol that has a name. -/
def PlainTypes (node : Node) (path : Path) : Prop :=
  ∀ type typed, Beside node path type typed →
    ∀ below named, typed.follow below = some named → Passed .generic named

theorem nodeKindToSymbol_of_functionKinds (h : node.kind ∈ functionKinds) :
  nodeKindToSymbol node.kind .generic = some .function
  := by
  have hall : ∀ kind ∈ functionKinds, nodeKindToSymbol kind .generic = some .function := by
    decide +kernel
  apply hall node.kind h

/-- A node on the way to an identifier of a C function is one of `functionKinds` or no symbol. -/
theorem Declared.functionKinds_of_follow {path rest : Path} {i : ℕ} {above : Node}
    {kind : SymbolKind} (h : Declared node (path ++ i :: rest))
    (hfunction : node.kind = "function_definition") (habove : node.follow path = some above)
    (hkind : nodeKindToSymbol above.kind .generic = some kind) :
  above.kind ∈ functionKinds
  := by
  have hall : ∀ entry ∈ declaratorFields,
      nodeKindToSymbol entry.1 .generic ≠ none → entry.1 ∈ functionKinds := by
    decide +kernel
  rcases h.kind_of_follow habove with rfl | ⟨field, hfield⟩
  · rw [hfunction]
    decide
  · apply hall _ hfield
    rw [hkind]
    apply Option.some_ne_none

theorem declaredSite_generic (node : Node) :
  declaredSite .generic node = (nameSite node).map (fun j => [j])
  := by
  rw [declaredSite, if_neg]
  rintro ⟨⟨⟩, -⟩

theorem takesName_iff_of_functionKinds (h : node.kind ∈ functionKinds) {path : Path} :
  TakesName .generic node path ↔ ∃ j, path = [j] ∧ nameSite node = some j
  := by
  have hkind := nodeKindToSymbol_of_functionKinds h
  constructor
  · rintro ⟨-, -, -, hsite⟩
    rw [declaredSite_generic] at hsite
    obtain ⟨j, hname, rfl⟩ := Option.map_eq_some_iff.mp hsite
    exact ⟨j, rfl, hname⟩
  · rintro ⟨j, rfl, hname⟩
    refine ⟨.function, hkind, by decide, ?_⟩
    rw [declaredSite_generic, hname]
    rfl

/-- The walk reaches the last declarator, which takes the identifier as its name. -/
theorem LastDeclarator.reaches {path : Path} {j : ℕ} (h : LastDeclarator node path j)
    (hdeclared : Declared node (path ++ [j])) (hfunction : node.kind = "function_definition") :
  ∃ last, Reaches .generic node path last ∧ TakesName .generic last [j]
  := by
  obtain ⟨⟨last, hlast, hkind, hname⟩, habove⟩ := h
  refine ⟨last, ?_, (takesName_iff_of_functionKinds hkind).mpr ⟨j, rfl, hname⟩⟩
  apply Reaches.of_passed hlast
  intro start i tail above hpath hfollow kind hsome
  rw [hpath, List.append_assoc] at hdeclared
  have hmember := hdeclared.functionKinds_of_follow hfunction hfollow hsome
  rw [nodeKindToSymbol_of_functionKinds hmember] at hsome
  obtain rfl := Option.some.inj hsome
  refine ⟨by decide, ?_⟩
  rw [declaredSite_generic, habove start i tail above hpath hfollow hmember]
  rfl

/-- An identifier that names the first symbol on the way to it is that of the last declarator. -/
theorem Declared.lastDeclarator (h : Declared node site)
    (hfunction : node.kind = "function_definition") (hnames : Names .generic node site) :
  ∃ path j, site = path ++ [j] ∧ LastDeclarator node path j
  := by
  obtain ⟨path, rest, last, rfl, hreaches, htakes⟩ := hnames
  obtain ⟨kind, hkind, hdefinition, hsite⟩ := htakes
  obtain ⟨k, tail, rfl⟩ := exists_cons_of_declaredSite hsite
  have hlast := h.functionKinds_of_follow hfunction hreaches.follow hkind
  obtain ⟨j, hrest, hname⟩ :=
    (takesName_iff_of_functionKinds hlast).mp ⟨kind, hkind, hdefinition, hsite⟩
  rw [hrest]
  refine ⟨path, j, rfl, ⟨last, hreaches.follow, hlast, hname⟩, ?_⟩
  intro start i tail' above hpath hfollow habove
  rw [hpath] at hreaches
  obtain ⟨middle, hmiddle, hbelow⟩ := hreaches.of_append
  obtain rfl := Option.some.inj (hfollow.symm.trans hmiddle.follow)
  have hpassed := hbelow.passed (List.cons_ne_nil i tail')
  by_contra hsome
  obtain ⟨j', hname'⟩ := Option.ne_none_iff_exists'.mp hsome
  apply hpassed.not_takesName ((takesName_iff_of_functionKinds habove).mpr ⟨j', rfl, hname'⟩)

/-- The walk reaches the types beside the way to the last declarator and no others. -/
theorem plainTypes_iff {path : Path} {j : ℕ} {last : Node}
    (hreaches : Reaches .generic node path last) (htakes : TakesName .generic last [j]) :
  PlainTypes node path
    ↔ ∀ type typed, Beside node (path ++ [j]) type typed → Reaches .generic node type typed →
      ∀ below named, typed.follow below = some named → Passed .generic named
  := by
  constructor
  · intro hplain type typed htype htyped
    obtain ⟨start, i, tail, k, holder, hpath, rfl, hne, hholder, hchild, hfield⟩ := htype
    obtain ⟨middle, hmiddle, hbelow⟩ := htyped.of_append
    have hpassed := hbelow.passed (List.cons_ne_nil k [])
    rcases List.eq_nil_or_concat tail with rfl | ⟨tail, b, rfl⟩
    · obtain ⟨rfl, -⟩ := List.append_inj' hpath rfl
      obtain rfl := Option.some.inj (hreaches.follow.symm.trans hmiddle.follow)
      apply absurd htakes hpassed.not_takesName
    · rw [List.concat_eq_append, ← List.cons_append, ← List.append_assoc] at hpath
      obtain ⟨rfl, -⟩ := List.append_inj' hpath rfl
      apply hplain (start ++ [k])
      exact ⟨start, i, tail, k, holder, rfl, rfl, hne, hholder, hchild, hfield⟩
  · intro hall type typed htype
    obtain ⟨start, i, tail, k, holder, rfl, rfl, hne, hholder, hchild, hfield⟩ := htype
    obtain ⟨middle, hmiddle, hbelow⟩ := hreaches.of_append
    obtain rfl := Option.some.inj (hholder.symm.trans hmiddle.follow)
    have hpassed := hbelow.passed (List.cons_ne_nil i tail)
    apply hall (start ++ [k]) typed
    · refine ⟨start, i, tail ++ [j], k, holder, ?_, rfl, hne, hholder, hchild, hfield⟩
      rw [List.append_assoc, List.cons_append]
    · apply hmiddle.append
      apply Reaches.here.through hpassed hchild

/-- What the walk needs to make one symbol of the identifier of a C function. -/
theorem onePerIdentifier_function_iff (hfunction : node.kind = "function_definition") :
  OnePerIdentifier node (walkSites .generic node)
    ↔ ∀ site, Declared node site → ∃ path j, site = path ++ [j] ∧ LastDeclarator node path j
      ∧ PlainTypes node path
  := by
  rw [onePerIdentifier_iff (by decide)]
  constructor
  · intro hall site hdeclared
    obtain ⟨hnames, htypes⟩ := hall site hdeclared
    obtain ⟨path, j, rfl, hlast⟩ := hdeclared.lastDeclarator hfunction hnames
    obtain ⟨last, hreaches, htakes⟩ := hlast.reaches hdeclared hfunction
    exact ⟨path, j, rfl, hlast, (plainTypes_iff hreaches htakes).mpr htypes⟩
  · intro hall site hdeclared
    obtain ⟨path, j, rfl, hlast, hplain⟩ := hall site hdeclared
    obtain ⟨last, hreaches, htakes⟩ := hlast.reaches hdeclared hfunction
    refine ⟨⟨path, [j], last, rfl, hreaches, htakes⟩, ?_⟩
    apply (plainTypes_iff hreaches htakes).mp hplain

/-! ### Members -/

/-- The paths of the nodes that name the symbol which a member of a body becomes. -/
def memberSites (lang : LangCategory) (node : Node) : List Path :=
  if (classifyNestedNode node.kind lang).isSome then (declaredSite lang node).toList else []

/-- A member that is a declaration becomes one symbol for each declared identifier, with its text
as the name, and none for its type. -/
def MemberNames (source : String) (lang : LangCategory) (node : Node) : Prop :=
  ∃ symbol, memberSymbol source lang node = .ok symbol
    ∧ List.Forall₂ (Carries source node) symbol.toList (memberSites lang node)
    ∧ OnePerIdentifier node (memberSites lang node)

/-- The declarations that are members of bodies. -/
def memberDeclarations : List (LangCategory × String) :=
  [(.java, "field_declaration"), (.generic, "function_definition")]

/-- A member becomes a symbol with the name at its site. -/
theorem carries_memberSymbol (hlang : lang ≠ .rust) (hread : Readable source node) :
  ∃ symbol, memberSymbol source lang node = .ok symbol
    ∧ List.Forall₂ (Carries source node) symbol.toList (memberSites lang node)
  := by
  rw [memberSymbol, memberSites]
  cases hclass : classifyNestedNode node.kind lang with
  | none => exact ⟨none, rfl, List.Forall₂.nil⟩
  | some kind =>
      have hdefinition := classifyNestedNode_not_import hclass
      cases hsite : declaredSite lang node with
      | none =>
          have hname := @extractDeclaredName_of_no_site source lang node hlang hsite
          exact ⟨none, not_buildSymbol_of_none hdefinition hname, List.Forall₂.nil⟩
      | some path =>
          obtain ⟨named, name, hnamed, htext, hdeclared⟩ :=
            extractDeclaredName_of_site hlang hread hsite
          obtain ⟨sym, hsym, rfl, -⟩ := buildSymbol_of_definition hdefinition hdeclared
          refine ⟨some sym, hsym, ?_⟩
          apply List.Forall₂.cons _ List.Forall₂.nil
          exact ⟨named, hnamed, Or.inr htext⟩

theorem memberNames_iff (hread : Readable source node)
    (h : (lang, node.kind) ∈ memberDeclarations) :
  MemberNames source lang node ↔ ∀ site, ¬ Declared node site
  := by
  have hall : ∀ entry ∈ memberDeclarations, entry.1 ≠ .rust ∧ entry.1 ≠ .go := by decide
  obtain ⟨hrust, hgo⟩ := hall (lang, node.kind) h
  constructor
  · rintro ⟨-, -, -, hone⟩ site hdeclared
    have hsite := hone.mem hdeclared
    rw [memberSites] at hsite
    split at hsite
    case isTrue =>
        apply hdeclared.declaredSite_ne (fun hand => hgo hand.1)
        apply Option.mem_toList.mp hsite
    case isFalse => cases hsite
  · intro hnone
    obtain ⟨symbol, hsymbol, hcarries⟩ := carries_memberSymbol hrust hread
    refine ⟨symbol, hsymbol, hcarries, ?_⟩
    intro site hdeclared
    apply absurd hdeclared (hnone site)

/-! ### Declared names -/

/-- When the symbols of a declaration are those of its identifiers: of a JavaScript, TypeScript or
Java declaration, a Go variable or constant, and a member of a body, never when it declares one; of
a Go type declaration when each identifier is that of its first type; of a C function when the
identifier names the first symbol on the way to it and nothing in the types becomes one. -/
theorem declaredNames_iff (hread : Readable source node) :
  ((lang, node.kind) ∈ plainDeclarations →
    (DeclaredNames source lang parentKind node
      ↔ (∀ text ∈ importTexts source lang parentKind node, Cuttable text)
        ∧ ∀ site, ¬ Declared node site))
  ∧ (node.kind = "type_declaration" →
    (DeclaredNames source .go parentKind node
      ↔ (∀ text ∈ importTexts source .go parentKind node, Cuttable text)
        ∧ ∀ site, Declared node site → FirstType node site))
  ∧ (node.kind = "function_definition" →
    (DeclaredNames source .generic parentKind node
      ↔ (∀ text ∈ importTexts source .generic parentKind node, Cuttable text)
        ∧ ∀ site, Declared node site → ∃ path j, site = path ++ [j]
          ∧ LastDeclarator node path j ∧ PlainTypes node path))
  ∧ ((lang, node.kind) ∈ memberDeclarations →
    (MemberNames source lang node ↔ ∀ site, ¬ Declared node site))
  := by
  refine ⟨?_, ?_, ?_, memberNames_iff hread⟩
  · intro hplain
    have hlang := (of_mem_plainDeclarations hplain).1
    rw [declaredNames_iff_onePerIdentifier (namesNodes_of_mem hlang) hread,
      onePerIdentifier_plain_iff hplain]
  · intro htype
    rw [declaredNames_iff_onePerIdentifier (namesNodes_of_mem (by decide)) hread,
      onePerIdentifier_type_iff htype]
  · intro hfunction
    rw [declaredNames_iff_onePerIdentifier (namesNodes_of_mem (by decide)) hread,
      onePerIdentifier_function_iff hfunction]

/-! ### A Go type, a JavaScript constant and a Java field -/

def typeSource : String :=
  "type A int"

/-- The declaration of `typeSource`. -/
def typeDeclaration : Node :=
  .mk "type_declaration" none ⟨0, 10, ⟨0, 0⟩, ⟨0, 10⟩⟩
    [.mk "type" none ⟨0, 4, ⟨0, 0⟩, ⟨0, 4⟩⟩ [],
      .mk "type_spec" none ⟨5, 10, ⟨0, 5⟩, ⟨0, 10⟩⟩
        [.mk "type_identifier" (some "name") ⟨5, 6, ⟨0, 5⟩, ⟨0, 6⟩⟩ [],
          .mk "type_identifier" (some "type") ⟨7, 10, ⟨0, 7⟩, ⟨0, 10⟩⟩ []]]

theorem readable_typeDeclaration :
  Readable typeSource typeDeclaration
  := by
  apply readable_of_children (by decide)
  simp only [typeDeclaration, Node.children, List.forall_mem_cons, List.not_mem_nil, false_imp_iff,
    implies_true, and_true]
  constructor
  · apply readable_of_children (by decide)
    apply List.forall_mem_nil
  · apply readable_of_children (by decide)
    simp only [Node.children, List.forall_mem_cons, List.not_mem_nil, false_imp_iff,
      implies_true, and_true]
    constructor
    · apply readable_of_children (by decide)
      apply List.forall_mem_nil
    · apply readable_of_children (by decide)
      apply List.forall_mem_nil

theorem firstType_typeDeclaration (h : Declared typeDeclaration site) :
  FirstType typeDeclaration site
  := by
  obtain ⟨i, j, path, child, rfl, hchild, hdeclarators⟩ := h
  cases hdeclarators with
  | @declarator _ below field _ _ hfield hname hbelow hrest =>
      have hlookup := lookup_of_mem_declaratorFields hfield
      rcases i with _ | _ | i
      · obtain rfl := Option.some.inj hchild
        cases hlookup
      · obtain rfl := Option.some.inj hchild
        obtain rfl := Option.some.inj hlookup
        rcases j with _ | _ | j
        · obtain rfl := Option.some.inj hbelow
          cases hrest with
          | identifier => exact ⟨1, 0, _, rfl, rfl, rfl, rfl⟩
          | declarator hfield => cases lookup_of_mem_declaratorFields hfield
        · obtain rfl := Option.some.inj hbelow
          apply absurd hname (by decide)
        · cases hbelow
      · cases hchild

/-- The Go declaration of one type declares it alone. -/
theorem declaredNames_typeDeclaration :
  DeclaredNames typeSource .go "source_file" typeDeclaration
  := by
  have himports : importTexts typeSource .go "source_file" typeDeclaration = [] := by decide
  apply ((@declaredNames_iff typeSource .go "source_file" typeDeclaration
    readable_typeDeclaration).2.1 rfl).mpr
  rw [himports]
  refine ⟨?_, ?_⟩
  · apply List.forall_mem_nil
  · intro site
    apply firstType_typeDeclaration

def constSource : String :=
  "const x = 1;"

/-- The declaration of `constSource`. -/
def constDeclaration : Node :=
  .mk "lexical_declaration" none ⟨0, 12, ⟨0, 0⟩, ⟨0, 12⟩⟩
    [.mk "const" (some "kind") ⟨0, 5, ⟨0, 0⟩, ⟨0, 5⟩⟩ [],
      .mk "variable_declarator" none ⟨6, 11, ⟨0, 6⟩, ⟨0, 11⟩⟩
        [.mk "identifier" (some "name") ⟨6, 7, ⟨0, 6⟩, ⟨0, 7⟩⟩ [],
          .mk "=" none ⟨8, 9, ⟨0, 8⟩, ⟨0, 9⟩⟩ [],
          .mk "number" (some "value") ⟨10, 11, ⟨0, 10⟩, ⟨0, 11⟩⟩ []],
      .mk ";" none ⟨11, 12, ⟨0, 11⟩, ⟨0, 12⟩⟩ []]

def fieldSource : String :=
  "Foo bar;"

/-- The declaration of `fieldSource`. -/
def fieldDeclaration : Node :=
  .mk "field_declaration" none ⟨0, 8, ⟨0, 0⟩, ⟨0, 8⟩⟩
    [.mk "type_identifier" (some "type") ⟨0, 3, ⟨0, 0⟩, ⟨0, 3⟩⟩ [],
      .mk "variable_declarator" (some "declarator") ⟨4, 7, ⟨0, 4⟩, ⟨0, 7⟩⟩
        [.mk "identifier" (some "name") ⟨4, 7, ⟨0, 4⟩, ⟨0, 7⟩⟩ []],
      .mk ";" none ⟨7, 8, ⟨0, 7⟩, ⟨0, 8⟩⟩ []]

/-- The constant has no symbol, and the field has the symbol of its type. -/
theorem not_declaredNames_constDeclaration :
  (Declared constDeclaration [1, 0]
    ∧ collectNodeSymbols constSource .javaScript "program" constDeclaration = .ok []
    ∧ ¬ DeclaredNames constSource .javaScript "program" constDeclaration)
  ∧ (Declared fieldDeclaration [1, 0]
    ∧ (∃ sym, collectNodeSymbols fieldSource .java "class_body" fieldDeclaration = .ok [sym]
      ∧ sym.name = "Foo")
    ∧ ¬ DeclaredNames fieldSource .java "class_body" fieldDeclaration)
  := by
  have hconst : Declared constDeclaration [1, 0] := by
    refine ⟨1, 0, [], _, rfl, rfl, ?_⟩
    apply @Declarators.declarator _ _ (some "name") 0 [] (by decide) (Or.inr rfl) rfl
    apply Declarators.identifier
    decide
  have hbar : Declared fieldDeclaration [1, 0] := by
    refine ⟨1, 0, [], _, rfl, rfl, ?_⟩
    apply @Declarators.declarator _ _ (some "name") 0 [] (by decide) (Or.inr rfl) rfl
    apply Declarators.identifier
    decide
  refine ⟨⟨hconst, ?_, ?_⟩, hbar, ?_, ?_⟩
  · have hsymbol : symbolOfNode constSource .javaScript constDeclaration = .ok none := by
      apply @not_buildSymbol_of_none constSource .javaScript constDeclaration .variable_
      · decide
      · decide
    rw [constDeclaration] at hsymbol ⊢
    rw [collectNodeSymbols, hsymbol]
    rfl
  · rintro ⟨-, -, -, hone⟩
    apply (onePerIdentifier_plain_iff (by decide)).mp hone _ hconst
  · have hkind : nodeKindToSymbol fieldDeclaration.kind .java = some .field := rfl
    obtain ⟨sym, hbuild, hname, -⟩ := @buildSymbol_of_definition fieldSource .java fieldDeclaration
      .field "Foo" (by decide) (by decide)
    exact ⟨sym, collectNodeSymbols_of_build hkind hbuild, hname⟩
  · rintro ⟨-, -, -, hone⟩
    apply (onePerIdentifier_plain_iff (by decide)).mp hone _ hbar

end OrchestraRag
