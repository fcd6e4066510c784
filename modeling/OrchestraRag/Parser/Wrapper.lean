import Mathlib.Data.String.Basic
import OrchestraRag.Library.Outcome
import OrchestraRag.Library.SortedMap

/-!
# Languages and the parser

Tree-sitter is given from outside: `TreeSitter` says which languages a parser accepts and
which tree it returns.  A `ParserWrapper` keeps the language its parser was last set to.
Its answers do not depend on what it parsed before (`parse_eq_fresh`).
-/

namespace OrchestraRag

/-! ### Trees -/

structure Point where
  row : ℕ
  column : ℕ
  deriving DecidableEq

/-- The place of a node in the source. -/
structure Range where
  startByte : ℕ
  endByte : ℕ
  startPoint : Point
  endPoint : Point
  deriving DecidableEq

/-- A node of a syntax tree, with the field of its parent that holds it. -/
inductive Node where
  | mk (kind : String) (fieldName : Option String) (range : Range) (children : List Node)

namespace Node

def kind : Node → String
  | .mk kind _ _ _ => kind

def fieldName : Node → Option String
  | .mk _ fieldName _ _ => fieldName

def range : Node → Range
  | .mk _ _ range _ => range

def children : Node → List Node
  | .mk _ _ _ children => children

def childByFieldName (node : Node) (name : String) : Option Node :=
  node.children.find? (fun child => child.fieldName == some name)

/-- Find the first direct child with the given `kind`. -/
def findChildByKind (node : Node) (kind : String) : Option Node :=
  node.children.find? (fun child => child.kind == kind)

theorem mem_children_of_childByFieldName {node child : Node} {name : String}
    (h : node.childByFieldName name = some child) :
  child ∈ node.children
  := List.mem_of_find?_eq_some h

theorem mem_children_of_findChildByKind {node child : Node} {kind : String}
    (h : node.findChildByKind kind = some child) :
  child ∈ node.children
  := List.mem_of_find?_eq_some h

theorem sizeOf_lt_of_mem_children {node child : Node} (h : child ∈ node.children) :
  sizeOf child < sizeOf node
  := by
  obtain ⟨kind, fieldName, range, children⟩ := node
  have hchild := List.sizeOf_lt_of_mem h
  rw [Node.mk.sizeOf_spec]
  simp only [Node.children] at hchild
  omega

end Node

/-- A Tree-sitter grammar, by the constant that provides it. -/
structure Language where
  grammar : String
  deriving DecidableEq

/-- What Tree-sitter does: accept a language or say why not, parse a text, and print a tree. -/
structure TreeSitter where
  setLanguage : Language → Except String Unit
  parse : Language → String → Option Node
  toSexp : Node → String

/-- A Tree-sitter parser, by the language it is set to. -/
structure Parser where
  language : Option Language

/-- Errors that can occur during parsing operations. -/
inductive ParserError where
  | unsupportedLanguage (language : String)
  | parseFailed (message : String)
  | treeSitterInit (message : String)
  deriving DecidableEq

namespace ParserError

def message : ParserError → String
  | .unsupportedLanguage language => "unsupported language: " ++ language
  | .parseFailed message => "failed to parse content: " ++ message
  | .treeSitterInit message => "tree-sitter initialization error: " ++ message

end ParserError

/-! ### Languages -/

/-- Maps language names to grammars and file extensions to language names. -/
structure LanguageRegistry where
  languages : List (String × Language)
  extensions : List (String × String)

namespace LanguageRegistry

def getLanguage (registry : LanguageRegistry) (name : String) : Option Language :=
  registry.languages.lookup name

/-- Detect language name from what follows the last dot of a file path. -/
def detectLanguage (registry : LanguageRegistry) (filePath : String) : Option String :=
  let ext := (filePath.toList.reverse.takeWhile (· != '.')).reverse
  registry.extensions.lookup (String.ofList ext)

/-- Register a language with its file extensions. -/
def registerLanguage (registry : LanguageRegistry) (name : String) (language : Language)
    (exts : List String) : LanguageRegistry where
  languages := SortedMap.insert name language registry.languages
  extensions := exts.foldl (fun extensions ext => SortedMap.insert ext name extensions)
    registry.extensions

/-- The languages registered from the start. -/
def builtins : List (String × Language × List String) :=
  [("rust", ⟨"tree_sitter_rust::LANGUAGE"⟩, ["rs"]),
    ("go", ⟨"tree_sitter_go::LANGUAGE"⟩, ["go"]),
    ("javascript", ⟨"tree_sitter_javascript::LANGUAGE"⟩, ["js", "jsx"]),
    ("typescript", ⟨"tree_sitter_typescript::LANGUAGE_TYPESCRIPT"⟩, ["ts"]),
    ("tsx", ⟨"tree_sitter_typescript::LANGUAGE_TSX"⟩, ["tsx"]),
    ("python", ⟨"tree_sitter_python::LANGUAGE"⟩, ["py"]),
    ("c", ⟨"tree_sitter_c::LANGUAGE"⟩, ["c", "h"]),
    ("cpp", ⟨"tree_sitter_cpp::LANGUAGE"⟩, ["cpp", "hpp", "cc"]),
    ("java", ⟨"tree_sitter_java::LANGUAGE"⟩, ["java"]),
    ("html", ⟨"tree_sitter_html::LANGUAGE"⟩, ["html", "htm"]),
    ("css", ⟨"tree_sitter_css::LANGUAGE"⟩, ["css"]),
    ("json", ⟨"tree_sitter_json::LANGUAGE"⟩, ["json"]),
    ("toml", ⟨"tree_sitter_toml_ng::LANGUAGE"⟩, ["toml"]),
    ("yaml", ⟨"tree_sitter_yaml::LANGUAGE"⟩, ["yaml", "yml"]),
    ("markdown", ⟨"tree_sitter_md::LANGUAGE"⟩, ["md"])]

/-- The registry with all built-in languages. -/
def new : LanguageRegistry :=
  builtins.foldl (fun registry (name, language, exts) =>
    registry.registerLanguage name language exts) ⟨[], []⟩

end LanguageRegistry

/-! ### The parser -/

/-- A parser with its language cached. -/
structure ParserWrapper where
  parser : Parser
  registry : LanguageRegistry
  currentLanguage : Option String

namespace ParserWrapper

variable (treeSitter : TreeSitter)

def new : ParserWrapper where
  parser := ⟨none⟩
  registry := .new
  currentLanguage := none

/-- A wrapper with a custom language registry; `new` is one with the built-in languages. -/
def withRegistry (registry : LanguageRegistry) : ParserWrapper where
  parser := ⟨none⟩
  registry := registry
  currentLanguage := none

/-- Set the parser language, skipping if already set. -/
def ensureLanguage (wrapper : ParserWrapper) (language : String) :
    Outcome ParserError Unit × ParserWrapper :=
  if wrapper.currentLanguage = some language then (.ok (), wrapper)
  else
    match wrapper.registry.getLanguage language with
    | none => (.error (.err (.unsupportedLanguage language)), wrapper)
    | some lang =>
        match treeSitter.setLanguage lang with
        | .error e =>
            (.error (.err (.treeSitterInit
              ("failed to set language '" ++ language ++ "': " ++ e))), wrapper)
        | .ok () =>
            (.ok (), { wrapper with parser := ⟨some lang⟩, currentLanguage := some language })

/-- The tree of a text in the language a parser is set to. -/
def parseText (parser : Parser) (content language : String) : Outcome ParserError Node :=
  match parser.language.bind (fun lang => treeSitter.parse lang content) with
  | some root => .ok root
  | none => .error (.err (.parseFailed
      ("tree-sitter returned None for language '" ++ language ++ "'")))

/-- Parse source code in the given language. -/
def parse (wrapper : ParserWrapper) (content language : String) :
    Outcome ParserError Node × ParserWrapper :=
  match wrapper.ensureLanguage treeSitter language with
  | (.error e, wrapper) => (.error e, wrapper)
  | (.ok (), wrapper) => (parseText treeSitter wrapper.parser content language, wrapper)

/-- The cached name denotes the grammar of the parser. -/
def CacheDenotes (wrapper : ParserWrapper) : Prop :=
  ∀ language, wrapper.currentLanguage = some language →
    ∃ lang, wrapper.registry.getLanguage language = some lang
      ∧ treeSitter.setLanguage lang = .ok () ∧ wrapper.parser.language = some lang

section Cache

variable {treeSitter} {wrapper : ParserWrapper} {language : String} {lang : Language}

/-- Nothing is cached. -/
theorem cacheDenotes_of_none (h : wrapper.currentLanguage = none) :
  wrapper.CacheDenotes treeSitter
  := by
  intro language hlanguage
  rw [h] at hlanguage
  cases hlanguage

/-- A language that is not registered is not cached. -/
theorem ensureLanguage_of_unsupported (h : wrapper.CacheDenotes treeSitter)
    (hget : wrapper.registry.getLanguage language = none) :
  wrapper.ensureLanguage treeSitter language
    = (.error (.err (.unsupportedLanguage language)), wrapper)
  := by
  have hcurrent : wrapper.currentLanguage ≠ some language := by
    intro hcurrent
    obtain ⟨lang, hlang, -⟩ := h language hcurrent
    rw [hget] at hlang
    cases hlang
  rw [ensureLanguage, if_neg hcurrent, hget]

/-- A language that is refused is not cached. -/
theorem ensureLanguage_of_refused {e : String} (h : wrapper.CacheDenotes treeSitter)
    (hget : wrapper.registry.getLanguage language = some lang)
    (hset : treeSitter.setLanguage lang = .error e) :
  wrapper.ensureLanguage treeSitter language
    = (.error (.err (.treeSitterInit
        ("failed to set language '" ++ language ++ "': " ++ e))), wrapper)
  := by
  have hcurrent : wrapper.currentLanguage ≠ some language := by
    intro hcurrent
    obtain ⟨lang', hlang, hok, -⟩ := h language hcurrent
    obtain rfl := Option.some.inj (hget.symm.trans hlang)
    rw [hset] at hok
    cases hok
  rw [ensureLanguage, if_neg hcurrent, hget]
  simp only [hset]

/-- Any other language is set and cached, also when it was cached before. -/
theorem ensureLanguage_of_accepted (h : wrapper.CacheDenotes treeSitter)
    (hget : wrapper.registry.getLanguage language = some lang)
    (hset : treeSitter.setLanguage lang = .ok ()) :
  wrapper.ensureLanguage treeSitter language
    = (.ok (), { wrapper with parser := ⟨some lang⟩, currentLanguage := some language })
  := by
  rw [ensureLanguage]
  by_cases hcurrent : wrapper.currentLanguage = some language
  · obtain ⟨lang', hlang, -, hparser⟩ := h language hcurrent
    obtain rfl := Option.some.inj (hget.symm.trans hlang)
    obtain ⟨⟨parserLanguage⟩, registry, current⟩ := wrapper
    cases hcurrent
    cases hparser
    rw [if_pos rfl]
  · rw [if_neg hcurrent, hget]
    simp only [hset]

theorem cacheDenotes_ensureLanguage (h : wrapper.CacheDenotes treeSitter) (language : String) :
  (wrapper.ensureLanguage treeSitter language).2.CacheDenotes treeSitter
    ∧ (wrapper.ensureLanguage treeSitter language).2.registry = wrapper.registry
  := by
  cases hget : wrapper.registry.getLanguage language with
  | none =>
      rw [ensureLanguage_of_unsupported h hget]
      exact ⟨h, rfl⟩
  | some lang =>
      cases hset : treeSitter.setLanguage lang with
      | error e =>
          rw [ensureLanguage_of_refused h hget hset]
          exact ⟨h, rfl⟩
      | ok u =>
          rw [ensureLanguage_of_accepted h hget hset]
          constructor
          · intro language' hlanguage'
            cases hlanguage'
            exact ⟨lang, hget, hset, rfl⟩
          · rfl

end Cache

/-- The registry is the built-in one, and the parser is set to the cached language. -/
structure Coherent (wrapper : ParserWrapper) : Prop where
  registry : wrapper.registry = .new
  current : ∀ language, wrapper.currentLanguage = some language →
    ∃ lang, LanguageRegistry.new.getLanguage language = some lang
      ∧ treeSitter.setLanguage lang = .ok () ∧ wrapper.parser.language = some lang

theorem coherent_new :
  Coherent treeSitter new
  := by
  constructor
  · rfl
  · intro language h
    cases h

/-- What a parser that never parsed answers. -/
def parseFresh (content language : String) : Outcome ParserError Node :=
  (new.parse treeSitter content language).1

variable {treeSitter}

/-- Coherent wrappers are those with the built-in registry whose cached name denotes the grammar
of the parser. -/
theorem coherent_iff {wrapper : ParserWrapper} :
  wrapper.Coherent treeSitter ↔ wrapper.registry = .new ∧ wrapper.CacheDenotes treeSitter
  := by
  constructor
  · intro h
    use h.registry
    rw [CacheDenotes, h.registry]
    apply h.current
  · rintro ⟨hregistry, hdenotes⟩
    rw [CacheDenotes, hregistry] at hdenotes
    exact ⟨hregistry, hdenotes⟩

/-- A parse leaves what setting the language leaves. -/
theorem parse_snd (wrapper : ParserWrapper) (content language : String) :
  (wrapper.parse treeSitter content language).2 = (wrapper.ensureLanguage treeSitter language).2
  := by
  rw [parse]
  rcases wrapper.ensureLanguage treeSitter language with ⟨e | u, wrapper'⟩
  · rfl
  · rfl

/-- Parsing answers as a fresh parser does, and keeps the cache coherent. -/
theorem parse_eq_fresh {wrapper : ParserWrapper} (h : wrapper.Coherent treeSitter)
    (content language : String) :
  (wrapper.parse treeSitter content language).1 = parseFresh treeSitter content language
    ∧ (wrapper.parse treeSitter content language).2.Coherent treeSitter
  := by
  obtain ⟨hregistry, hdenotes⟩ := coherent_iff.mp h
  have hnew : new.CacheDenotes treeSitter := cacheDenotes_of_none rfl
  have hensured := cacheDenotes_ensureLanguage hdenotes language
  constructor
  · rw [parseFresh, parse, parse]
    cases hget : new.registry.getLanguage language with
    | none =>
        have hget' : wrapper.registry.getLanguage language = none := hregistry ▸ hget
        rw [ensureLanguage_of_unsupported hdenotes hget', ensureLanguage_of_unsupported hnew hget]
    | some lang =>
        have hget' : wrapper.registry.getLanguage language = some lang := hregistry ▸ hget
        cases hset : treeSitter.setLanguage lang with
        | error e =>
            rw [ensureLanguage_of_refused hdenotes hget' hset,
              ensureLanguage_of_refused hnew hget hset]
        | ok u =>
            rw [ensureLanguage_of_accepted hdenotes hget' hset,
              ensureLanguage_of_accepted hnew hget hset]
  · rw [coherent_iff, parse_snd, hensured.2]
    exact ⟨hregistry, hensured.1⟩

/-- A parser never panics. -/
theorem parseFresh_not_panicked (content language : String) :
  ¬ (parseFresh treeSitter content language).Panicked
  := by
  have hnew : new.CacheDenotes treeSitter := cacheDenotes_of_none rfl
  rw [parseFresh, parse, Outcome.Panicked]
  cases hget : new.registry.getLanguage language with
  | none =>
      rw [ensureLanguage_of_unsupported hnew hget]
      simp
  | some lang =>
      cases hset : treeSitter.setLanguage lang with
      | error e =>
          rw [ensureLanguage_of_refused hnew hget hset]
          simp
      | ok u =>
          rw [ensureLanguage_of_accepted hnew hget hset]
          cases hparse : treeSitter.parse lang content with
          | none => simp [parseText, hparse]
          | some root => simp [parseText, hparse]

end ParserWrapper

end OrchestraRag
