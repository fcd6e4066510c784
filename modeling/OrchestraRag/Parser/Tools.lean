import OrchestraRag.Parser.Extractor
import OrchestraRag.Protocol.Json

/-!
# The parse tools

The tools `parse_file`, `get_symbols` and `get_imports` share an extractor and a parser, each
behind a mutex.  From sound tools, a call answers as with new ones, and it poisons a mutex
exactly when its text has an import that cannot be cut (`Answers`).
-/

namespace OrchestraRag

/-! ### Values of symbols -/

def TextRange.toJson (range : TextRange) : Json :=
  .object (SortedMap.collect
    [("start_line", .number (.posInt (.ofNat range.startLine))),
      ("start_column", .number (.posInt (.ofNat range.startColumn))),
      ("end_line", .number (.posInt (.ofNat range.endLine))),
      ("end_column", .number (.posInt (.ofNat range.endColumn)))])

mutual

def symbolToJson : CodeSymbol → Json
  | .mk name kind range detail children =>
      .object (SortedMap.collect
        [("name", .string name),
          ("kind", .string kind.toString),
          ("range", range.toJson),
          ("detail", (detail.map Json.string).getD .null),
          ("children", .array (symbolsToJson children))])

def symbolsToJson : List CodeSymbol → List Json
  | [] => []
  | sym :: symbols => symbolToJson sym :: symbolsToJson symbols

end

/-! ### Requests -/

/-- What a request asks to parse. -/
structure ParseRequest where
  path : String
  content : String
  language : String

/-- The path, content and language of a request; the language is detected from the path when it
is not given. -/
def parseRequest (args : Json) : Except String ParseRequest :=
  let path := ((args.get "path").bind Json.asStr).getD ""
  match (args.get "content").bind Json.asStr with
  | none => .error "'content' is required"
  | some content =>
      match ((args.get "language").bind Json.asStr).or
          (LanguageRegistry.new.detectLanguage path) with
      | none => .error
          "could not determine language; provide 'language' or a file path with known extension"
      | some language => .ok { path, content, language }

/-- What the runtime contributes to a blocking task: the time it took, and the error that joining
it reports when it panicked. -/
structure Task where
  elapsedMs : UInt64
  joinError : String

/-- Run a blocking task and wait for it. -/
def Task.spawnBlocking {α : Type} (task : Task) : Outcome String α → Outcome String α
  | .ok a => .ok a
  | .error (.err e) => .error (.err e)
  | .error .panicked => .error (.err ("spawn_blocking panicked: " ++ task.joinError))

/-! ### Tools -/

/-- The extractor and the parser of the tools. -/
structure ParseTools where
  extractor : Mutex SymbolExtractor
  parser : Mutex ParserWrapper

namespace ParseTools

def new : ParseTools where
  extractor := .new .new
  parser := .new .new

/-- The error of a call that finds a mutex poisoned. -/
def lockPoisoned : String :=
  "lock: poisoned lock: another task failed inside"

section Handlers

variable (treeSitter : TreeSitter) (task : Task)

/-- Extract the symbols of a request and answer with a value made of them. -/
def answerSymbols (request : ParseRequest) (render : List CodeSymbol → Json)
    (tools : ParseTools) : Outcome String Json × ParseTools :=
  let (symbols, extractor) := tools.extractor.withLock lockPoisoned fun extractor =>
    let (symbols, extractor) :=
      extractor.extractSymbols treeSitter request.content request.language
    (symbols.mapErr (fun e => "symbol extraction error: " ++ e.message), extractor)
  (task.spawnBlocking (symbols.map render), { tools with extractor := extractor })

/-- The tree of a request, printed. -/
def printTree (request : ParseRequest) (tools : ParseTools) :
    Outcome String String × ParseTools :=
  let (root, parser) := tools.parser.withLock lockPoisoned fun parser =>
    let (root, parser) := parser.parse treeSitter request.content request.language
    (root.mapErr (fun e => "parse error: " ++ e.message), parser)
  (root.map treeSitter.toSexp, { tools with parser := parser })

/-- Answer a request, or say what is missing in its arguments. -/
def forRequest (args : Json) (call : ParseRequest → ParseTools → Outcome String Json × ParseTools)
    (tools : ParseTools) : Outcome String Json × ParseTools :=
  match parseRequest args with
  | .error e => (.error (.err e), tools)
  | .ok request => call request tools

/-- The value `parse_file` answers with, the tree printed in it if asked for. -/
def parseFileResult (request : ParseRequest) (ast : Option String) (symbols : List CodeSymbol) :
    Json :=
  let fields :=
    [("success", .bool true),
      ("path", .string request.path),
      ("language", .string request.language),
      ("symbols", .array (symbolsToJson symbols)),
      ("parse_time_ms", .number (.posInt task.elapsedMs))]
  match ast with
  | some ast => .object (SortedMap.collect (fields ++ [("ast", .string ast)]))
  | none => .object (SortedMap.collect fields)

/-- Print the tree of a request and extract its symbols. -/
def parseWithAst (request : ParseRequest) (tools : ParseTools) :
    Outcome String Json × ParseTools :=
  match printTree treeSitter request tools with
  | (.error e, tools) => (task.spawnBlocking (.error e), tools)
  | (.ok ast, tools) =>
      answerSymbols treeSitter task request (parseFileResult task request (some ast)) tools

def handleParseFile (args : Json) : ParseTools → Outcome String Json × ParseTools :=
  forRequest args fun request =>
    if ((args.get "include_ast").bind Json.asBool).getD false
    then parseWithAst treeSitter task request
    else answerSymbols treeSitter task request (parseFileResult task request none)

/-- The symbols of the kinds that the arguments name, all if they name none. -/
def retainTypes (args : Json) (symbols : List CodeSymbol) : List CodeSymbol :=
  match (args.get "symbol_types").bind Json.asArray with
  | some types =>
      let kinds := (types.filterMap Json.asStr).filterMap SymbolKind.fromStrName
      symbols.filter (fun sym => sym.kind ∈ kinds)
  | none => symbols

/-- The value `get_symbols` answers with. -/
def symbolsResult (args : Json) (request : ParseRequest) (symbols : List CodeSymbol) : Json :=
  .object (SortedMap.collect
    [("path", .string request.path),
      ("symbols", .array (symbolsToJson (retainTypes args symbols)))])

def handleGetSymbols (args : Json) : ParseTools → Outcome String Json × ParseTools :=
  forRequest args fun request => answerSymbols treeSitter task request (symbolsResult args request)

/-- The value `get_imports` answers with. -/
def importsResult (request : ParseRequest) (symbols : List CodeSymbol) : Json :=
  .object (SortedMap.collect
    [("path", .string request.path),
      ("imports", .array (symbolsToJson (symbols.filter (fun sym => sym.kind = .import_))))])

def handleGetImports (args : Json) : ParseTools → Outcome String Json × ParseTools :=
  forRequest args fun request => answerSymbols treeSitter task request (importsResult request)

end Handlers

/-! ### What a call does -/

variable (treeSitter : TreeSitter)

/-- Both parsers are coherent. -/
structure Coherent (tools : ParseTools) : Prop where
  extractor : tools.extractor.value.parser.Coherent treeSitter
  parser : tools.parser.value.Coherent treeSitter

/-- A mutex is poisoned. -/
def Poisoned (tools : ParseTools) : Prop :=
  tools.extractor.poisoned = true ∨ tools.parser.poisoned = true

/-- From coherent tools that are not poisoned, the call answers as with new ones, keeps them
coherent, and poisons a mutex exactly if `P` fails. -/
structure Answers (call : ParseTools → Outcome String Json × ParseTools) (P : Prop) : Prop where
  fresh : ∀ tools, tools.Coherent treeSitter → ¬ tools.Poisoned → (call tools).1 = (call new).1
  coherent : ∀ tools, tools.Coherent treeSitter → ¬ tools.Poisoned →
    (call tools).2.Coherent treeSitter
  poisoned : ∀ tools, tools.Coherent treeSitter → ¬ tools.Poisoned →
    ((call tools).2.Poisoned ↔ ¬ P)

/-- Every import and export statement of the text of the request can be cut. -/
def RequestCuttable (args : Json) : Prop :=
  ∀ request, parseRequest args = .ok request →
    SymbolExtractor.ImportsCuttable treeSitter request.content request.language

variable {treeSitter}

theorem coherent_new :
  new.Coherent treeSitter
  := ⟨ParserWrapper.coherent_new treeSitter, ParserWrapper.coherent_new treeSitter⟩

theorem not_poisoned_new :
  ¬ new.Poisoned
  := by
  rintro (h | h)
  · cases h
  · cases h

/-- A call that never reaches the mutexes. -/
theorem Answers.const (x : Outcome String Json) {P : Prop} (hP : P) :
  Answers treeSitter (fun tools => (x, tools)) P
  := by
  constructor
  · intro tools _ _
    rfl
  · intro tools hcoherent _
    apply hcoherent
  · intro tools _ hsound
    exact iff_of_false hsound (not_not.mpr hP)

/-- A call that first parses with the parser. -/
theorem Answers.parsed {call call' : ParseTools → Outcome String Json × ParseTools} {P : Prop}
    (h : Answers treeSitter call P)
    (hcall : ∀ tools, tools.Coherent treeSitter → ¬ tools.Poisoned →
      ∃ parser, parser.Coherent treeSitter
        ∧ call' tools = call { tools with parser := ⟨parser, false⟩ }) :
  Answers treeSitter call' P
  := by
  have hparsed : ∀ tools, tools.Coherent treeSitter → ¬ tools.Poisoned →
      ∃ tools', tools'.Coherent treeSitter ∧ ¬ tools'.Poisoned ∧ call' tools = call tools' := by
    intro tools hcoherent hsound
    obtain ⟨parser, hparser, heq⟩ := hcall tools hcoherent hsound
    use { tools with parser := ⟨parser, false⟩ }, ⟨hcoherent.extractor, hparser⟩
    refine ⟨?_, heq⟩
    rintro (hextractor | hpoisoned)
    · apply hsound (Or.inl hextractor)
    · cases hpoisoned
  constructor
  · intro tools hcoherent hsound
    obtain ⟨tools', hcoherent', hsound', heq⟩ := hparsed tools hcoherent hsound
    obtain ⟨new', hcoherentNew, hsoundNew, heqNew⟩ := hparsed new coherent_new not_poisoned_new
    rw [heq, heqNew, h.fresh tools' hcoherent' hsound', h.fresh new' hcoherentNew hsoundNew]
  · intro tools hcoherent hsound
    obtain ⟨tools', hcoherent', hsound', heq⟩ := hparsed tools hcoherent hsound
    rw [heq]
    apply h.coherent tools' hcoherent' hsound'
  · intro tools hcoherent hsound
    obtain ⟨tools', hcoherent', hsound', heq⟩ := hparsed tools hcoherent hsound
    rw [heq]
    apply h.poisoned tools' hcoherent' hsound'

theorem answerSymbols_eq {tools : ParseTools} (hcoherent : tools.Coherent treeSitter)
    (hsound : ¬ tools.Poisoned) (task : Task) (request : ParseRequest)
    (render : List CodeSymbol → Json) :
  ∃ extractor, extractor.parser.Coherent treeSitter
    ∧ answerSymbols treeSitter task request render tools
      = (task.spawnBlocking
          (((SymbolExtractor.extractFresh treeSitter request.content request.language).mapErr
            (fun e => "symbol extraction error: " ++ e.message)).map render),
        { tools with
          extractor := ⟨extractor,
            (SymbolExtractor.extractFresh treeSitter request.content
              request.language).isPanicked⟩ })
  := by
  have hpoisoned : tools.extractor.poisoned = false := by
    rw [← Bool.not_eq_true]
    apply mt Or.inl hsound
  obtain ⟨hfresh, hcoherent'⟩ :=
    SymbolExtractor.extractSymbols_eq_fresh hcoherent.extractor request.content request.language
  use (tools.extractor.value.extractSymbols treeSitter request.content request.language).2,
    hcoherent'
  rw [answerSymbols, Mutex.withLock_of_not_poisoned hpoisoned]
  simp only [hfresh, Outcome.isPanicked_mapErr]

theorem answerSymbols_answers (task : Task) (request : ParseRequest)
    (render : List CodeSymbol → Json) :
  Answers treeSitter (answerSymbols treeSitter task request render)
    (SymbolExtractor.ImportsCuttable treeSitter request.content request.language)
  := by
  constructor
  · intro tools hcoherent hsound
    obtain ⟨extractor, -, hcall⟩ := answerSymbols_eq hcoherent hsound task request render
    obtain ⟨extractor', -, hcall'⟩ :=
      answerSymbols_eq coherent_new not_poisoned_new task request render
    rw [hcall, hcall']
  · intro tools hcoherent hsound
    obtain ⟨extractor, hextractor, hcall⟩ := answerSymbols_eq hcoherent hsound task request render
    rw [hcall]
    exact ⟨hextractor, hcoherent.parser⟩
  · intro tools hcoherent hsound
    obtain ⟨extractor, -, hcall⟩ := answerSymbols_eq hcoherent hsound task request render
    rw [hcall, ← SymbolExtractor.extractFresh_panicked_iff, ← Outcome.isPanicked_iff]
    have hparser : tools.parser.poisoned ≠ true := mt Or.inr hsound
    simp only [Poisoned, hparser, Bool.false_eq_true, or_false]

/-- Printing a tree answers as with new tools, and leaves them coherent and sound. -/
theorem printTree_eq {tools : ParseTools} (hcoherent : tools.Coherent treeSitter)
    (hsound : ¬ tools.Poisoned) (request : ParseRequest) :
  ∃ parser, parser.Coherent treeSitter
    ∧ printTree treeSitter request tools
      = (((ParserWrapper.parseFresh treeSitter request.content request.language).mapErr
          (fun e => "parse error: " ++ e.message)).map treeSitter.toSexp,
        { tools with parser := ⟨parser, false⟩ })
  := by
  have hpoisoned : tools.parser.poisoned = false := by
    rw [← Bool.not_eq_true]
    apply mt Or.inr hsound
  obtain ⟨hfresh, hcoherent'⟩ :=
    ParserWrapper.parse_eq_fresh hcoherent.parser request.content request.language
  have hreturned : (ParserWrapper.parseFresh treeSitter request.content
      request.language).isPanicked = false := by
    rw [← Bool.not_eq_true, Outcome.isPanicked_iff]
    apply ParserWrapper.parseFresh_not_panicked
  use (tools.parser.value.parse treeSitter request.content request.language).2, hcoherent'
  rw [printTree, Mutex.withLock_of_not_poisoned hpoisoned]
  simp only [hfresh, Outcome.isPanicked_mapErr, hreturned]

theorem parseWithAst_answers (task : Task) (request : ParseRequest) :
  Answers treeSitter (parseWithAst treeSitter task request)
    (SymbolExtractor.ImportsCuttable treeSitter request.content request.language)
  := by
  have hreturned := @ParserWrapper.parseFresh_not_panicked treeSitter request.content
    request.language
  rcases hparse : ParserWrapper.parseFresh treeSitter request.content request.language with
    (e | _) | root
  · have hcuttable : SymbolExtractor.ImportsCuttable treeSitter request.content
        request.language := by
      intro root hroot
      rw [hparse] at hroot
      cases hroot
    apply (Answers.const (.error (.err ("parse error: " ++ e.message))) hcuttable).parsed
    intro tools hcoherent hsound
    obtain ⟨parser, hparser, hprint⟩ := printTree_eq hcoherent hsound request
    use parser, hparser
    rw [parseWithAst, hprint, hparse]
    rfl
  · apply absurd hparse hreturned
  · let render := parseFileResult task request (some (treeSitter.toSexp root))
    apply (answerSymbols_answers task request render).parsed
    intro tools hcoherent hsound
    obtain ⟨parser, hparser, hprint⟩ := printTree_eq hcoherent hsound request
    use parser, hparser
    rw [parseWithAst, hprint, hparse]
    rfl

/-- A call without request does not depend on the tools. -/
theorem forRequest_answers {args : Json}
    {call : ParseRequest → ParseTools → Outcome String Json × ParseTools}
    (h : ∀ request, Answers treeSitter (call request)
      (SymbolExtractor.ImportsCuttable treeSitter request.content request.language)) :
  Answers treeSitter (forRequest args call) (RequestCuttable treeSitter args)
  := by
  cases hrequest : parseRequest args with
  | error e =>
      have hcall : forRequest args call = fun tools => (.error (.err e), tools) := by
        funext tools
        rw [forRequest, hrequest]
      have hcuttable : RequestCuttable treeSitter args := by
        intro request hok
        rw [hrequest] at hok
        cases hok
      rw [hcall]
      apply Answers.const _ hcuttable
  | ok request =>
      have hcall : forRequest args call = call request := by
        funext tools
        rw [forRequest, hrequest]
      have hcuttable : RequestCuttable treeSitter args
          ↔ SymbolExtractor.ImportsCuttable treeSitter request.content request.language := by
        constructor
        · intro hargs
          apply hargs request hrequest
        · intro hcuttable request' hrequest'
          rw [hrequest] at hrequest'
          cases hrequest'
          apply hcuttable
      rw [hcall, hcuttable]
      apply h request

theorem handleParseFile_answers (task : Task) (args : Json) :
  Answers treeSitter (handleParseFile treeSitter task args) (RequestCuttable treeSitter args)
  := by
  apply forRequest_answers
  intro request
  split
  · apply parseWithAst_answers
  · apply answerSymbols_answers

theorem handleGetSymbols_answers (task : Task) (args : Json) :
  Answers treeSitter (handleGetSymbols treeSitter task args) (RequestCuttable treeSitter args)
  := forRequest_answers (fun request => answerSymbols_answers task request _)

theorem handleGetImports_answers (task : Task) (args : Json) :
  Answers treeSitter (handleGetImports treeSitter task args) (RequestCuttable treeSitter args)
  := forRequest_answers (fun request => answerSymbols_answers task request _)

end ParseTools

end OrchestraRag
