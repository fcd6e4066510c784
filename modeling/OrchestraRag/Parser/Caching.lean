import OrchestraRag.Parser.Wrapper

/-!
# The cached language

A `ParserWrapper` remembers the name of the language its parser was last set to, and does not set
it again.  A change of the registry clears that name.  So a name that is remembered always denotes
the grammar of the parser, and every parse runs with the grammar registered at that time
(`parse_runs_registered`).
-/

namespace OrchestraRag

/-- A Tree-sitter that also parses a text from the tree of an earlier one. -/
structure IncrementalTreeSitter extends TreeSitter where
  parseFrom : Language → String → Node → Option Node

namespace ParserWrapper

/-- The registry is handed out to be changed, and the cached language is forgotten. -/
def registryMut (wrapper : ParserWrapper) (change : LanguageRegistry → LanguageRegistry) :
    ParserWrapper :=
  { wrapper with registry := change wrapper.registry, currentLanguage := none }

section Incremental

variable (treeSitter : IncrementalTreeSitter)

/-- The tree of a text from that of an earlier one, in the language a parser is set to. -/
def parseTextFrom (parser : Parser) (content language : String) (oldTree : Node) :
    Outcome ParserError Node :=
  match parser.language.bind (fun lang => treeSitter.parseFrom lang content oldTree) with
  | some root => .ok root
  | none => .error (.err (.parseFailed
      ("incremental parse returned None for language '" ++ language ++ "'")))

/-- Incrementally parse source code using a previous tree. -/
def parseIncremental (wrapper : ParserWrapper) (content language : String) (oldTree : Node) :
    Outcome ParserError Node × ParserWrapper :=
  match wrapper.ensureLanguage treeSitter.toTreeSitter language with
  | (.error e, wrapper) => (.error e, wrapper)
  | (.ok (), wrapper) =>
      (parseTextFrom treeSitter wrapper.parser content language oldTree, wrapper)

end Incremental

end ParserWrapper

/-! ### Calls -/

/-- A call of `parse`, or of `parse_incremental` when there is an old tree. -/
structure ParserRequest where
  content : String
  language : String
  oldTree : Option Node

/-- A call on a wrapper: one that parses, or one that registers a language. -/
inductive ParserCall where
  | parse (request : ParserRequest)
  | registerLanguage (name : String) (language : Language) (exts : List String)

section Calls

variable (treeSitter : IncrementalTreeSitter)

namespace ParserRequest

/-- What the call answers, and the wrapper after it. -/
def run (request : ParserRequest) (wrapper : ParserWrapper) :
    Outcome ParserError Node × ParserWrapper :=
  match request.oldTree with
  | none => wrapper.parse treeSitter.toTreeSitter request.content request.language
  | some oldTree =>
      wrapper.parseIncremental treeSitter request.content request.language oldTree

/-- The answer of a parser that is set to a grammar. -/
def answer (request : ParserRequest) (parser : Parser) : Outcome ParserError Node :=
  match request.oldTree with
  | none =>
      ParserWrapper.parseText treeSitter.toTreeSitter parser request.content request.language
  | some oldTree =>
      ParserWrapper.parseTextFrom treeSitter parser request.content request.language oldTree

/-- Both calls set the language first. -/
theorem run_eq (request : ParserRequest) (wrapper : ParserWrapper) :
  request.run treeSitter wrapper
    = match wrapper.ensureLanguage treeSitter.toTreeSitter request.language with
      | (.error e, wrapper) => (.error e, wrapper)
      | (.ok (), wrapper) => (request.answer treeSitter wrapper.parser, wrapper)
  := by
  obtain ⟨content, language, oldTree⟩ := request
  cases oldTree with
  | none => rfl
  | some oldTree => rfl

end ParserRequest

/-- The wrapper after a call. -/
def ParserCall.run (wrapper : ParserWrapper) : ParserCall → ParserWrapper
  | .parse request => (request.run treeSitter wrapper).2
  | .registerLanguage name language exts =>
      wrapper.registryMut (fun registry => registry.registerLanguage name language exts)

/-- The wrapper after calls. -/
def ParserWrapper.after (wrapper : ParserWrapper) (calls : List ParserCall) : ParserWrapper :=
  calls.foldl (ParserCall.run treeSitter) wrapper

end Calls

/-- The grammar registered under a name after calls: by the last one that registers it, else from
the start. -/
def registered (registry : LanguageRegistry) (calls : List ParserCall) (name : String) :
    Option Language :=
  calls.foldl (fun grammar call =>
    match call with
    | .parse _ => grammar
    | .registerLanguage name' language _ => if name = name' then some language else grammar)
    (registry.getLanguage name)

/-! ### Runs -/

section Runs

variable {treeSitter : IncrementalTreeSitter} {wrapper : ParserWrapper}

/-- A parse leaves what setting the language leaves. -/
theorem ParserRequest.run_snd (request : ParserRequest) (wrapper : ParserWrapper) :
  (request.run treeSitter wrapper).2
    = (wrapper.ensureLanguage treeSitter.toTreeSitter request.language).2
  := by
  rw [run_eq]
  rcases wrapper.ensureLanguage treeSitter.toTreeSitter request.language with ⟨e | u, wrapper'⟩
  · rfl
  · rfl

/-- Every call keeps the invariant, and registers what it says. -/
theorem ParserCall.cacheDenotes_run (call : ParserCall)
    (h : wrapper.CacheDenotes treeSitter.toTreeSitter) :
  (call.run treeSitter wrapper).CacheDenotes treeSitter.toTreeSitter
    ∧ ∀ name, (call.run treeSitter wrapper).registry.getLanguage name
      = registered wrapper.registry [call] name
  := by
  cases call with
  | parse request =>
      have hensured := ParserWrapper.cacheDenotes_ensureLanguage h request.language
      rw [run, request.run_snd, hensured.2]
      use hensured.1
      intro name
      rfl
  | registerLanguage name' language exts =>
      use ParserWrapper.cacheDenotes_of_none rfl
      intro name
      apply SortedMap.lookup_insert

theorem ParserWrapper.cacheDenotes_after (calls : List ParserCall)
    (h : wrapper.CacheDenotes treeSitter.toTreeSitter) :
  (wrapper.after treeSitter calls).CacheDenotes treeSitter.toTreeSitter
    ∧ ∀ name, (wrapper.after treeSitter calls).registry.getLanguage name
      = registered wrapper.registry calls name
  := by
  induction calls generalizing wrapper with
  | nil =>
      use h
      intro name
      rfl
  | cons call calls ih =>
      obtain ⟨hcall, hregistered⟩ := call.cacheDenotes_run h
      obtain ⟨hafter, hcalls⟩ := ih hcall
      use hafter
      intro name
      have hfirst := hregistered name
      rw [registered, List.foldl_cons, List.foldl_nil] at hfirst
      rw [registered, List.foldl_cons, ← hfirst]
      apply hcalls name

/-- The call fails as unsupported exactly when no grammar is given.  Else it sets the parser to the
grammar, unless Tree-sitter refuses it, and answers the tree that Tree-sitter makes of the text in
this grammar, from the old tree if there is one. -/
structure ParserRequest.RunsWith (treeSitter : IncrementalTreeSitter) (request : ParserRequest)
    (grammar : Option Language) (result : Outcome ParserError Node × ParserWrapper) : Prop where
  unsupported : result.1 = .error (.err (.unsupportedLanguage request.language)) ↔ grammar = none
  refused : ∀ lang e, grammar = some lang → treeSitter.setLanguage lang = .error e →
    result.1 = .error (.err (.treeSitterInit
      ("failed to set language '" ++ request.language ++ "': " ++ e)))
  language : ∀ lang, grammar = some lang → treeSitter.setLanguage lang = .ok () →
    result.2.parser.language = some lang
  parsed : ∀ lang, grammar = some lang → treeSitter.setLanguage lang = .ok () →
    request.oldTree = none →
    result.1 = match treeSitter.parse lang request.content with
      | some root => .ok root
      | none => .error (.err (.parseFailed
          ("tree-sitter returned None for language '" ++ request.language ++ "'")))
  parsedFrom : ∀ lang oldTree, grammar = some lang → treeSitter.setLanguage lang = .ok () →
    request.oldTree = some oldTree →
    result.1 = match treeSitter.parseFrom lang request.content oldTree with
      | some root => .ok root
      | none => .error (.err (.parseFailed
          ("incremental parse returned None for language '" ++ request.language ++ "'")))

theorem ParserRequest.answer_ne_unsupported (request : ParserRequest) (parser : Parser)
    (language : String) :
  request.answer treeSitter parser ≠ .error (.err (.unsupportedLanguage language))
  := by
  obtain ⟨content, language', oldTree⟩ := request
  cases oldTree with
  | none =>
      simp only [answer, ParserWrapper.parseText]
      cases parser.language.bind _ with
      | none => simp
      | some root => simp
  | some oldTree =>
      simp only [answer, ParserWrapper.parseTextFrom]
      cases parser.language.bind _ with
      | none => simp
      | some root => simp

theorem ParserRequest.runsWith (request : ParserRequest)
    (h : wrapper.CacheDenotes treeSitter.toTreeSitter) :
  request.RunsWith treeSitter (wrapper.registry.getLanguage request.language)
    (request.run treeSitter wrapper)
  := by
  rw [run_eq]
  cases hget : wrapper.registry.getLanguage request.language with
  | none =>
      rw [ParserWrapper.ensureLanguage_of_unsupported h hget]
      constructor
      · exact iff_of_true rfl rfl
      · rintro lang e ⟨⟩
      · rintro lang ⟨⟩
      · rintro lang ⟨⟩
      · rintro lang oldTree ⟨⟩
  | some lang =>
      cases hset : treeSitter.setLanguage lang with
      | error e =>
          rw [ParserWrapper.ensureLanguage_of_refused h hget hset]
          constructor
          · simp
          · rintro lang' e' ⟨⟩ hrefused
            cases hset.symm.trans hrefused
            rfl
          · rintro lang' ⟨⟩ haccepted
            cases hset.symm.trans haccepted
          · rintro lang' ⟨⟩ haccepted
            cases hset.symm.trans haccepted
          · rintro lang' oldTree ⟨⟩ haccepted
            cases hset.symm.trans haccepted
      | ok u =>
          rw [ParserWrapper.ensureLanguage_of_accepted h hget hset]
          constructor
          · apply iff_of_false
            · apply request.answer_ne_unsupported
            · apply Option.some_ne_none
          · rintro lang' e ⟨⟩ hrefused
            cases hset.symm.trans hrefused
          · rintro lang' ⟨⟩ _
            rfl
          · rintro lang' ⟨⟩ _ hnone
            simp only [answer, hnone]
            rfl
          · rintro lang' oldTree ⟨⟩ _ hsome
            simp only [answer, hsome]
            rfl

/-- What a call answers depends on the grammar only. -/
theorem ParserRequest.RunsWith.unique {request : ParserRequest} {grammar : Option Language}
    {result result' : Outcome ParserError Node × ParserWrapper}
    (h : request.RunsWith treeSitter grammar result)
    (h' : request.RunsWith treeSitter grammar result') :
  result.1 = result'.1
  := by
  cases hgrammar : grammar with
  | none => rw [h.unsupported.mpr hgrammar, h'.unsupported.mpr hgrammar]
  | some lang =>
      cases hset : treeSitter.setLanguage lang with
      | error e => rw [h.refused lang e hgrammar hset, h'.refused lang e hgrammar hset]
      | ok u =>
          cases hold : request.oldTree with
          | none => rw [h.parsed lang hgrammar hset hold, h'.parsed lang hgrammar hset hold]
          | some oldTree =>
              rw [h.parsedFrom lang oldTree hgrammar hset hold,
                h'.parsedFrom lang oldTree hgrammar hset hold]

end Runs

/-- After any calls on a wrapper, the cached name denotes the grammar of the parser, and a parse
runs with the grammar registered under the requested name, as on a fresh wrapper with the same
registry. -/
theorem parse_runs_registered (treeSitter : IncrementalTreeSitter) (registry : LanguageRegistry)
    (calls : List ParserCall) (request : ParserRequest) :
  let wrapper := (ParserWrapper.withRegistry registry).after treeSitter calls
  wrapper.CacheDenotes treeSitter.toTreeSitter
    ∧ request.RunsWith treeSitter (registered registry calls request.language)
      (request.run treeSitter wrapper)
    ∧ (request.run treeSitter wrapper).1
      = (request.run treeSitter (.withRegistry wrapper.registry)).1
  := by
  intro wrapper
  have hfresh : ∀ registry, (ParserWrapper.withRegistry registry).CacheDenotes
      treeSitter.toTreeSitter := by
    intro registry
    apply ParserWrapper.cacheDenotes_of_none rfl
  obtain ⟨hdenotes, hregistered⟩ :=
    @ParserWrapper.cacheDenotes_after treeSitter _ calls (hfresh registry)
  use hdenotes
  constructor
  · have hruns := request.runsWith hdenotes
    rw [hregistered] at hruns
    apply hruns
  · apply (request.runsWith hdenotes).unique
    apply request.runsWith (hfresh wrapper.registry)

end OrchestraRag
