import Mathlib.Data.List.Infix
import OrchestraRag.Library.Utf8
import OrchestraRag.Parser.Wrapper

/-!
# Symbol extraction

Walks a syntax tree and collects its symbols.  The text of a node is the slice of the
source at its byte range.  The walk panics when `truncateImport` cuts a text inside a
character; everything else in it is total.
-/

namespace OrchestraRag

/-! ### Symbols -/

/-- The kind of a code symbol. -/
inductive SymbolKind where
  | function
  | method
  | class_
  | struct
  | interface
  | enum
  | trait
  | variable_
  | constant
  | module
  | import_
  | export_
  | field
  | type
  | property
  | constructor
  | event
  deriving DecidableEq

namespace SymbolKind

/-- The label of a kind. -/
def toString : SymbolKind → String
  | .function => "function"
  | .method => "method"
  | .class_ => "class"
  | .struct => "struct"
  | .interface => "interface"
  | .enum => "enum"
  | .trait => "trait"
  | .variable_ => "variable"
  | .constant => "constant"
  | .module => "module"
  | .import_ => "import"
  | .export_ => "export"
  | .field => "field"
  | .type => "type"
  | .property => "property"
  | .constructor => "constructor"
  | .event => "event"

def all : List SymbolKind :=
  [.function, .method, .class_, .struct, .interface, .enum, .trait, .variable_, .constant,
    .module, .import_, .export_, .field, .type, .property, .constructor, .event]

/-- Parse a kind from its label. -/
def fromStrName (s : String) : Option SymbolKind :=
  all.find? (fun kind => kind.toString == s)

theorem fromStrName_toString (kind : SymbolKind) :
  fromStrName kind.toString = some kind
  := by
  cases kind with
  | _ => rfl

end SymbolKind

/-- A zero-based line/column range in source code. -/
structure TextRange where
  startLine : ℕ
  startColumn : ℕ
  endLine : ℕ
  endColumn : ℕ
  deriving DecidableEq

def TextRange.ofRange (r : Range) : TextRange where
  startLine := r.startPoint.row
  startColumn := r.startPoint.column
  endLine := r.endPoint.row
  endColumn := r.endPoint.column

/-- A symbol extracted from source code, with the symbols nested in it. -/
inductive CodeSymbol where
  | mk (name : String) (kind : SymbolKind) (range : TextRange) (detail : Option String)
      (children : List CodeSymbol)

namespace CodeSymbol

def name : CodeSymbol → String
  | .mk name _ _ _ _ => name

def kind : CodeSymbol → SymbolKind
  | .mk _ kind _ _ _ => kind

def range : CodeSymbol → TextRange
  | .mk _ _ range _ _ => range

def detail : CodeSymbol → Option String
  | .mk _ _ _ detail _ => detail

def children : CodeSymbol → List CodeSymbol
  | .mk _ _ _ _ children => children

end CodeSymbol

/-! ### Languages -/

/-- Which node types are symbols. -/
inductive LangCategory where
  | rust
  | go
  | javaScript
  | typeScript
  | python
  | java
  | generic
  deriving DecidableEq

def categorizeLanguage (lang : String) : LangCategory :=
  if lang = "rust" then .rust
  else if lang = "go" then .go
  else if lang = "javascript" then .javaScript
  else if lang = "typescript" ∨ lang = "tsx" then .typeScript
  else if lang = "python" then .python
  else if lang = "java" then .java
  else .generic

/-- `text.contains(pattern)`. -/
def containsText (text pattern : String) : Bool :=
  decide (pattern.toList <:+: text.toList)

def toAsciiLowercase (text : String) : String :=
  String.ofList (text.toList.map Char.toLower)

/-- Heuristic mapping for languages without dedicated rules. -/
def genericNodeKind (nodeType : String) : Option SymbolKind :=
  let lower := toAsciiLowercase nodeType
  if containsText lower "function" ∨ containsText lower "func_def" then some .function
  else if containsText lower "class" then some .class_
  else if containsText lower "struct" then some .struct
  else if containsText lower "import" then some .import_
  else if containsText lower "method" then some .method
  else if containsText lower "type" ∧ containsText lower "declaration" then some .type
  else none

/-- The node types of a language that are symbols. -/
def symbolNodes : LangCategory → List (String × SymbolKind)
  | .rust =>
      [("function_item", .function), ("struct_item", .struct), ("enum_item", .enum),
        ("trait_item", .trait), ("impl_item", .class_), ("const_item", .constant),
        ("static_item", .constant), ("type_item", .type), ("use_declaration", .import_),
        ("mod_item", .module)]
  | .go =>
      [("function_declaration", .function), ("method_declaration", .method),
        ("type_declaration", .type), ("import_declaration", .import_),
        ("const_declaration", .constant), ("var_declaration", .variable_),
        ("package_clause", .module)]
  | .javaScript =>
      [("function_declaration", .function), ("class_declaration", .class_),
        ("method_definition", .method), ("variable_declaration", .variable_),
        ("lexical_declaration", .variable_), ("import_statement", .import_),
        ("export_statement", .export_)]
  | .typeScript =>
      [("function_declaration", .function), ("class_declaration", .class_),
        ("method_definition", .method), ("variable_declaration", .variable_),
        ("lexical_declaration", .variable_), ("import_statement", .import_),
        ("export_statement", .export_), ("interface_declaration", .interface),
        ("type_alias_declaration", .type), ("enum_declaration", .enum)]
  | .python =>
      [("function_definition", .function), ("class_definition", .class_),
        ("import_statement", .import_), ("import_from_statement", .import_)]
  | .java =>
      [("class_declaration", .class_), ("interface_declaration", .interface),
        ("method_declaration", .method), ("field_declaration", .field),
        ("enum_declaration", .enum), ("constructor_declaration", .constructor),
        ("import_declaration", .import_)]
  | .generic => []

/-- Map a node type to a kind of symbol; `none` when it is not interesting. -/
def nodeKindToSymbol (nodeType : String) (lang : LangCategory) : Option SymbolKind :=
  match lang with
  | .generic => genericNodeKind nodeType
  | _ => (symbolNodes lang).lookup nodeType

/-- Classify a node inside a class or impl body as a nested kind of symbol. -/
def classifyNestedNode (nodeType : String) : LangCategory → Option SymbolKind
  | .rust =>
      [("function_item", SymbolKind.method), ("function_signature_item", .method),
        ("const_item", .constant), ("type_item", .type)].lookup nodeType
  | .go => [("method_declaration", SymbolKind.method)].lookup nodeType
  | .javaScript | .typeScript =>
      [("method_definition", SymbolKind.method), ("public_field_definition", .property),
        ("field_definition", .property)].lookup nodeType
  | .python => [("function_definition", SymbolKind.method)].lookup nodeType
  | .java =>
      [("method_declaration", SymbolKind.method), ("constructor_declaration", .constructor),
        ("field_declaration", .field)].lookup nodeType
  | .generic =>
      if containsText nodeType "method" ∨ containsText nodeType "function" then some .method
      else none

/-! ### Names and details -/

/-- Get the text of a node from the source. -/
def nodeText (source : String) (node : Node) : Option String :=
  (Utf8.slice node.range.startByte node.range.endByte source.toList).map String.ofList

/-- The text without trailing semicolons and without white space at its ends. -/
def trimImport (text : String) : List Char :=
  Utf8.trim (Utf8.trimEndMatches (· == ';') (Utf8.trim text.toList))

/-- Truncate an import or export statement to a reasonable length for the name; the cut at
byte 117 panics inside a character. -/
def truncateImport (text : String) : Outcome ParserError String :=
  let trimmed := trimImport text
  if 120 < Utf8.byteLength trimmed then
    match Utf8.splitAtByte 117 trimmed with
    | some (pre, _) => .ok (String.ofList pre ++ "...")
    | none => .error .panicked
  else .ok (String.ofList trimmed)

/-- Standard name extraction: the field `name`, then the first identifier child. -/
def extractNameFromNode (source : String) (node : Node) : Option String :=
  match node.childByFieldName "name" with
  | some nameNode => nodeText source nameNode
  | none =>
      match node.children.find? (fun child =>
        ["identifier", "type_identifier", "package_identifier"].contains child.kind) with
      | some child => nodeText source child
      | none => none

/-- For an `impl_item`, extract `impl Foo` or `impl Trait for Foo`. -/
def extractRustImplName (source : String) (node : Node) : Option String :=
  let typeNames := (node.children.filter (fun child =>
    ["type_identifier", "scoped_type_identifier", "generic_type"].contains child.kind)).filterMap
      (nodeText source)
  match typeNames with
  | [] => none
  | [name] => some ("impl " ++ name)
  | traitName :: typeName :: _ => some ("impl " ++ traitName ++ " for " ++ typeName)

/-- Extract the name of a node that is no import: from the `type_spec` of a Go type, from the
type of a Rust impl block, else by the standard extraction. -/
def extractDeclaredName (source : String) (node : Node) (lang : LangCategory) : Option String :=
  if lang = .go ∧ node.kind = "type_declaration" then
    match node.findChildByKind "type_spec" with
    | some spec => extractNameFromNode source spec
    | none => extractNameFromNode source node
  else if lang = .rust ∧ node.kind = "impl_item" then
    extractRustImplName source node
  else extractNameFromNode source node

/-- Extract the symbol name from a node; for imports, the full node text. -/
def extractName (source : String) (node : Node) (kind : SymbolKind) (lang : LangCategory) :
    Outcome ParserError (Option String) :=
  if kind = .import_ ∨ kind = .export_ then
    match nodeText source node with
    | some text => some <$> truncateImport text
    | none => pure none
  else pure (extractDeclaredName source node lang)

/-- Build a function detail from its parameters and return type nodes. -/
def extractFunctionDetail (source : String) (node : Node) : Option String :=
  let params := node.childByFieldName "parameters"
    <|> node.findChildByKind "formal_parameters"
    <|> node.findChildByKind "parameter_list"
    <|> node.findChildByKind "parameters"
  let returnType := node.childByFieldName "return_type"
    <|> node.findChildByKind "return_type"
    <|> node.childByFieldName "result"
  match params.bind (nodeText source), returnType.bind (nodeText source) with
  | some p, some r => some (p ++ " -> " ++ r)
  | some p, none => some p
  | none, some r => some ("-> " ++ r)
  | none, none => none

/-- Extract an optional detail string. -/
def extractDetail (source : String) (node : Node) (kind : SymbolKind) : Option String :=
  match kind with
  | .function | .method | .constructor => extractFunctionDetail source node
  | _ => none

/-! ### The walk -/

/-- Attempt to find the body node of a container. -/
def findBodyNode (node : Node) : Option Node :=
  node.childByFieldName "body"
    <|> node.findChildByKind "declaration_list"
    <|> node.findChildByKind "class_body"
    <|> node.findChildByKind "block"

/-- The node whose children are the members of a container. -/
def bodyOf (parent : Node) : Node :=
  (findBodyNode parent).getD parent

theorem mem_children_of_findBodyNode {node body : Node} (h : findBodyNode node = some body) :
  body ∈ node.children
  := by
  rw [findBodyNode] at h
  simp only [Option.orElse_eq_orElse, Option.orElse_eq_or, Option.or_eq_some_iff] at h
  rcases h with h | ⟨-, h | ⟨-, h | ⟨-, h⟩⟩⟩
  · apply Node.mem_children_of_childByFieldName h
  · apply Node.mem_children_of_findChildByKind h
  · apply Node.mem_children_of_findChildByKind h
  · apply Node.mem_children_of_findChildByKind h

theorem sizeOf_lt_of_mem_bodyOf {node child : Node} (h : child ∈ (bodyOf node).children) :
  sizeOf child < sizeOf node
  := by
  have hchild := Node.sizeOf_lt_of_mem_children h
  rw [bodyOf] at hchild
  cases hbody : findBodyNode node with
  | none =>
      rw [hbody] at hchild
      apply hchild
  | some body =>
      rw [hbody] at hchild
      apply hchild.trans
      apply Node.sizeOf_lt_of_mem_children (mem_children_of_findBodyNode hbody)

/-- The kind holds nested symbols. -/
def isContainer (kind : SymbolKind) : Bool :=
  [SymbolKind.class_, .struct, .trait, .interface].contains kind

/-- Build a symbol from a matched node, with the members of a container as its children. -/
def buildSymbol (source : String) (lang : LangCategory) (node : Node) (kind : SymbolKind) :
    Outcome ParserError (Option CodeSymbol) := do
  match ← extractName source node kind lang with
  | none => pure none
  | some name =>
      let detail := extractDetail source node kind
      let children ←
        if isContainer kind then
          (bodyOf node).children.attach.filterMapM fun child =>
            match classifyNestedNode child.val.kind lang with
            | some kind => buildSymbol source lang child.val kind
            | none => pure none
        else pure []
      pure (some (.mk name kind (.ofRange node.range) detail children))
termination_by node
decreasing_by
  apply sizeOf_lt_of_mem_bodyOf child.property

/-- The symbol a node becomes by its kind, if any. -/
def symbolOfNode (source : String) (lang : LangCategory) (node : Node) :
    Outcome ParserError (Option CodeSymbol) :=
  match nodeKindToSymbol node.kind lang with
  | some kind => buildSymbol source lang node kind
  | none => pure none

/-- The name a Python module assigns to at a node. -/
def assignedName (source : String) (lang : LangCategory) (parentKind : String) (node : Node) :
    Option String :=
  if lang = .python ∧ node.kind = "expression_statement" ∧ parentKind = "module" then
    (node.findChildByKind "assignment").bind (extractNameFromNode source)
  else none

mutual

/-- Inspect a node whose parent is of kind `parentKind`: build its symbol, or look for
symbols in its children, as also for an export statement that has no text. -/
def collectNodeSymbols (source : String) (lang : LangCategory) (parentKind : String) :
    Node → Outcome ParserError (List CodeSymbol)
  | .mk kind fieldName range children => do
      let node := Node.mk kind fieldName range children
      match ← symbolOfNode source lang node with
      | some sym => pure [sym]
      | none =>
          match assignedName source lang parentKind node with
          | some name => pure [.mk name .variable_ (.ofRange range) none []]
          | none => collectChildSymbols source lang kind children

def collectChildSymbols (source : String) (lang : LangCategory) (parentKind : String) :
    List Node → Outcome ParserError (List CodeSymbol)
  | [] => pure []
  | node :: nodes => do
      let symbols ← collectNodeSymbols source lang parentKind node
      let rest ← collectChildSymbols source lang parentKind nodes
      pure (symbols ++ rest)

end

/-- Walk the children of the root of a tree and collect their symbols. -/
def collectSymbols (root : Node) (source : String) (lang : LangCategory) :
    Outcome ParserError (List CodeSymbol) :=
  collectChildSymbols source lang root.kind root.children

end OrchestraRag
