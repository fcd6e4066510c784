import OrchestraRag.Index.Directory

/-!
# Indexing a file again

`index_directory` and `index_file` both extract the names of the symbols of a text, with a copy of
the code each.  The copies agree when they are given the same language (`reindexed_alike`).  But
`index_file` does not look at the path for the language: without an argument it is `unknown`, no
symbols are extracted, and the document of the directory run is replaced by one with another
language and no symbols (`reindexed_unlike`).
-/

namespace OrchestraRag

/-! ### Names of symbols -/

section Names

variable {treeSitter : TreeSitter} {extractor : SymbolExtractor}

/-- The two copies of the extraction agree. -/
theorem extractSymbolNames_eq (h : extractor.parser.Coherent treeSitter)
    (content language : String) :
  (extractSymbolNames treeSitter content language extractor).1
      = extractSymbolNamesForIndex treeSitter content language
    ∧ (extractSymbolNames treeSitter content language extractor).2.parser.Coherent treeSitter
  := by
  obtain ⟨hfresh, hcoherent⟩ := SymbolExtractor.extractSymbols_eq_fresh h content language
  rw [extractSymbolNamesForIndex, ← hfresh, extractSymbolNames]
  rcases hextract : extractor.extractSymbols treeSitter content language with
    ⟨(e | _) | symbols, extractor'⟩
  · rw [hextract] at hcoherent
    exact ⟨rfl, hcoherent⟩
  · rw [hextract] at hcoherent
    exact ⟨rfl, hcoherent⟩
  · rw [hextract] at hcoherent
    exact ⟨rfl, hcoherent⟩

/-- No grammar is registered for an unknown language. -/
theorem extractSymbolNamesForIndex_unknown (treeSitter : TreeSitter) (content : String) :
  extractSymbolNamesForIndex treeSitter content "unknown" = .ok ""
  := by
  have hlanguage : LanguageRegistry.new.getLanguage "unknown" = none := by decide
  have hextract : SymbolExtractor.extractFresh treeSitter content "unknown"
      = .error (.err (.unsupportedLanguage "unknown")) := by
    rw [SymbolExtractor.extractFresh, SymbolExtractor.extractSymbols, ParserWrapper.parse,
      ParserWrapper.ensureLanguage]
    have hnew : SymbolExtractor.new.parser.currentLanguage ≠ some "unknown" := by
      rintro ⟨⟩
    rw [if_neg hnew]
    have hregistry : SymbolExtractor.new.parser.registry.getLanguage "unknown" = none := hlanguage
    rw [hregistry]
  rw [extractSymbolNamesForIndex, hextract]

/-- Collecting a file keeps the extractor coherent. -/
theorem coherent_collectFile (h : extractor.parser.Coherent treeSitter) (file : WalkedFile)
    (ext : String) :
  (collectFile treeSitter file ext extractor).2.parser.Coherent treeSitter
  := by
  rw [collectFile]
  cases file.indexable with
  | none => apply h
  | some content =>
      have hcoherent := (extractSymbolNames_eq h content (file.language ext)).2
      dsimp only
      rcases hsymbols : extractSymbolNames treeSitter content (file.language ext) extractor with
        ⟨e | symbols, extractor'⟩
      · rw [hsymbols] at hcoherent
        apply hcoherent
      · rw [hsymbols] at hcoherent
        apply hcoherent

/-- A file that is wanted and can be indexed is collected with the names of its symbols. -/
theorem mem_collected {exclude supported : List String} {entries : List WalkEntry}
    {files : List CollectedFile} (hcoherent : extractor.parser.Coherent treeSitter)
    (h : collectFilesWithSymbols treeSitter exclude supported extractor entries = .ok files)
    {file : WalkedFile} {ext content : String} (hfile : .file file ∈ entries)
    (hwanted : file.wanted exclude supported = some ext)
    (hcontent : file.indexable = some content) :
  ∃ symbols, extractSymbolNamesForIndex treeSitter content (file.language ext) = .ok symbols
    ∧ ⟨file.path, content, file.language ext, symbols, false⟩ ∈ files
  := by
  have hcollects := collects_of_ok h
  clear h
  induction hcollects with
  | nil => cases hfile
  | skip hunwanted _ ih =>
      apply ih hcoherent
      apply List.mem_of_ne_of_mem _ hfile
      rintro rfl
      rw [hunwanted file rfl] at hwanted
      cases hwanted
  | @take extractor extractor' first ext' collected entries files hfirst hcollect _ ih =>
      have hkept := coherent_collectFile hcoherent first ext'
      rw [hcollect] at hkept
      rcases List.mem_cons.mp hfile with heq | hfile
      · cases heq
        cases hwanted.symm.trans hfirst
        have hnames := (extractSymbolNames_eq hcoherent content (file.language ext)).1
        rw [collectFile, hcontent] at hcollect
        dsimp only at hcollect
        rcases hsymbols : extractSymbolNames treeSitter content (file.language ext) extractor with
          ⟨e | symbols, extractor''⟩
        · rw [hsymbols] at hcollect
          cases hcollect
        · rw [hsymbols] at hcollect hnames
          cases hcollect
          use symbols, hnames.symm
          apply List.mem_cons_self
      · obtain ⟨symbols, hsymbols, hmem⟩ := ih hkept hfile
        use symbols, hsymbols
        apply List.mem_cons_of_mem _ hmem

end Names

/-! ### What a call of `index_file` adds -/

/-- The step adds no document but this one. -/
def IndexOp.AddsOnly (doc : IndexDocument) : IndexOp → Prop
  | .addDocument doc' => doc' = doc
  | _ => True

theorem uses_handleIndexFile {context : IndexContext} {args : Json} {doc : IndexDocument}
    (h : indexFileDocument context args = .ok doc) :
  Program.Uses (IndexOp.AddsOnly doc) (handleIndexFile context args)
  := by
  rw [handleIndexFile, h]
  apply @Program.Uses.step IndexOp IndexAns _ _ (.deleteDocument doc.path) _ trivial
  rintro (e | ⟨⟩)
  · apply Program.Uses.ret
  apply @Program.Uses.step IndexOp IndexAns _ (IndexOp.AddsOnly doc) (.addDocument doc) _ rfl
  rintro (e | ⟨⟩)
  · apply Program.Uses.ret
  apply @Program.Uses.step IndexOp IndexAns _ _ .commit _ trivial
  rintro (e | ⟨⟩)
  · apply Program.Uses.ret
  apply @Program.Uses.step IndexOp IndexAns _ _ .reload _ trivial
  rintro (e | ⟨⟩)
  · apply Program.Uses.ret
  · apply Program.Uses.ret

/-- The arguments name a file and its content. -/
structure NamesFile (args : Json) (path content : String) : Prop where
  path : (args.get "path").bind Json.asStr = some path
  content : (args.get "content").bind Json.asStr = some content

/-- The document of a call has the language that it names, and an unknown one otherwise. -/
theorem indexFileDocument_eq {context : IndexContext} {args : Json}
    {path content language symbols : String} (h : NamesFile args path content)
    (hlanguage : ((args.get "language").bind Json.asStr).getD "unknown" = language)
    (hsymbols : extractSymbolNamesForIndex context.treeSitter content language = .ok symbols) :
  indexFileDocument context args
    = .ok ⟨path, content, language, symbols, metadataText context args⟩
  := by
  have hdocument : indexFileDocument context args = (do
      let symbols ← extractSymbolNamesForIndex context.treeSitter content language
      pure ⟨path, content, language, symbols, metadataText context args⟩) := by
    rw [indexFileDocument, requiredText, h.path, requiredText, h.content, hlanguage]
    rfl
  rw [hdocument, hsymbols]
  rfl

/-- The fields of a document in which a file is searched. -/
structure IndexDocument.SameFields (doc doc' : IndexDocument) : Prop where
  content : doc.content = doc'.content
  language : doc.language = doc'.language
  symbols : doc.symbols = doc'.symbols

/-- A file of a walk that is collected with its content, and whose extension is supported. -/
structure Supported (walk : String → List WalkEntry) (args : Json) (file : WalkedFile)
    (content language : String) : Prop where
  walked : ∃ root exclude supported, walkArguments args = .ok (root, exclude, supported)
    ∧ .file file ∈ walk root ∧ file.wanted exclude supported ≠ none
  content : file.indexable = some content
  language : LanguageRegistry.new.detectLanguage file.path = some language

section Runs

variable {context : IndexContext} {walk : String → List WalkEntry} {directoryArgs args answer : Json}
  {s s' t t' : IndexState} {directoryOps ops : List IndexOp} {r : Outcome String Json}
  {file : WalkedFile} {content language : String}

/-- A directory run writes a document of a supported file, with its language and symbols. -/
theorem written_of_supported
    (hdirectory : Program.Performs (IndexOp.WithoutErrors context.treeSitter walk)
      (handleIndexDirectory directoryArgs) s directoryOps (.ok answer) s')
    (h : Supported walk directoryArgs file content language) :
  ∃ symbols, extractSymbolNamesForIndex context.treeSitter content language = .ok symbols
    ∧ .addDocument ⟨file.path, content, language, symbols, "{}"⟩ ∈ directoryOps
  := by
  obtain ⟨root, exclude, supported, files, hargs, hcollected, -, hops⟩ :=
    performs_handleIndexDirectory hdirectory
  obtain ⟨root', exclude', supported', hargs', hfile, hwanted⟩ := h.walked
  cases hargs.symm.trans hargs'
  obtain ⟨ext, hext⟩ := Option.ne_none_iff_exists'.mp hwanted
  obtain ⟨symbols, hsymbols, hmem⟩ := mem_collected
    (ParserWrapper.coherent_new context.treeSitter) hcollected hfile hext h.content
  have hlanguage : file.language ext = language := by
    rw [WalkedFile.language, h.language]
    rfl
  rw [hlanguage] at hsymbols hmem
  use symbols, hsymbols, (hops _ hmem).2

/-- With the language as an argument, a file that is indexed again has the same fields. -/
theorem reindexed_alike
    (hdirectory : Program.Performs (IndexOp.WithoutErrors context.treeSitter walk)
      (handleIndexDirectory directoryArgs) s directoryOps (.ok answer) s')
    (hfile : Program.Performs IndexOp.Step (handleIndexFile context args) t ops r t')
    (h : Supported walk directoryArgs file content language)
    (hnames : NamesFile args file.path content)
    (hlanguage : (args.get "language").bind Json.asStr = some language) :
  ∃ written, .addDocument written ∈ directoryOps ∧ written.path = file.path
    ∧ ∀ doc, .addDocument doc ∈ ops → doc.SameFields written
  := by
  obtain ⟨symbols, hsymbols, hwritten⟩ := written_of_supported hdirectory h
  refine ⟨_, hwritten, rfl, ?_⟩
  intro doc hdoc
  have hindexed := @indexFileDocument_eq context args file.path content language symbols hnames
    (by rw [hlanguage]; rfl) hsymbols
  have honly : doc = _ := hfile.of_uses (uses_handleIndexFile hindexed) _ hdoc
  rw [honly]
  exact ⟨rfl, rfl, rfl⟩

end Runs

/-- Without the language as an argument, a supported file that is indexed again never has the
fields that a directory run writes: its content is the same, but its language is unknown, and it
has no symbols. -/
theorem reindexed_unlike (context : IndexContext) (walk : String → List WalkEntry)
    {directoryArgs args answer : Json} {s s' t t' : IndexState} {directoryOps ops : List IndexOp}
    {r : Outcome String Json} {file : WalkedFile} {content language : String}
    (hdirectory : Program.Performs (IndexOp.WithoutErrors context.treeSitter walk)
      (handleIndexDirectory directoryArgs) s directoryOps (.ok answer) s')
    (hfile : Program.Performs IndexOp.Step (handleIndexFile context args) t ops r t')
    (h : Supported walk directoryArgs file content language)
    (hnames : NamesFile args file.path content)
    (hargs : (args.get "language").bind Json.asStr = none) :
  ∃ written, .addDocument written ∈ directoryOps
    ∧ written.path = file.path ∧ written.content = content ∧ written.language = language
    ∧ .ok written.symbols = extractSymbolNamesForIndex context.treeSitter content language
    ∧ ∀ doc, .addDocument doc ∈ ops →
      doc.path = file.path ∧ doc.content = content ∧ doc.language = "unknown" ∧ doc.symbols = ""
        ∧ ¬ doc.SameFields written
  := by
  obtain ⟨symbols, hsymbols, hwritten⟩ := written_of_supported hdirectory h
  refine ⟨_, hwritten, rfl, rfl, rfl, hsymbols.symm, ?_⟩
  intro doc hdoc
  have hindexed := @indexFileDocument_eq context args file.path content "unknown" "" hnames
    (by rw [hargs]; rfl) (extractSymbolNamesForIndex_unknown context.treeSitter content)
  have honly : doc = _ := hfile.of_uses (uses_handleIndexFile hindexed) _ hdoc
  rw [honly]
  refine ⟨rfl, rfl, rfl, rfl, ?_⟩
  intro hsame
  have hknown : ∀ language ∈ LanguageRegistry.new.extensions.map Prod.snd,
      "unknown" ≠ language := by
    decide
  apply hknown language (mem_of_detectLanguage h.language) hsame.language

section MainFile

/-- A Rust file with one function. -/
def mainFile : WalkedFile where
  path := "/project/main.rs"
  names := [some "main.rs"]
  extension := some "rs"
  content := some mainSource

/-- The arguments of a call that indexes `mainFile` again. -/
def mainFileArgs : Json :=
  .object [("content", .string mainSource), ("path", .string "/project/main.rs")]

/-- The context of the calls on `mainFile`. -/
def mainFileContext : IndexContext where
  treeSitter := sampleTreeSitter
  jsonText _ := ""

theorem supported_mainFile :
  Supported (fun _ => [.file mainFile]) directoryArgs mainFile mainSource "rust"
  := by
  constructor
  · use "/project", defaultExcludes, LanguageRegistry.new.extensions.map Prod.fst
    exact ⟨rfl, List.mem_cons_self, by decide⟩
  · decide +kernel
  · decide

theorem symbolNames_mainSource :
  extractSymbolNamesForIndex sampleTreeSitter mainSource "rust" = .ok "main"
  := by
  rw [extractSymbolNamesForIndex, extractFresh_mainSource]
  decide

theorem collects_mainFile (_ : String) (exclude supported : List String) :
  ∃ files, collectFilesWithSymbols sampleTreeSitter exclude supported .new [.file mainFile]
    = .ok files
  := by
  rw [collectFilesWithSymbols]
  cases mainFile.wanted exclude supported with
  | none => exact ⟨_, rfl⟩
  | some ext =>
      have hlanguage : mainFile.language ext = "rust" := by
        rw [WalkedFile.language, supported_mainFile.language]
        rfl
      have hnames := (@extractSymbolNames_eq sampleTreeSitter .new
        (ParserWrapper.coherent_new sampleTreeSitter) mainSource "rust").1
      rw [symbolNames_mainSource] at hnames
      simp only [collectFile, supported_mainFile.content, hlanguage]
      rcases hsymbols : extractSymbolNames sampleTreeSitter mainSource "rust" .new with
        ⟨e | symbols, extractor⟩
      · rw [hsymbols] at hnames
        cases hnames
      · exact ⟨_, rfl⟩

/-- A directory run on `mainFile`, and then a call that indexes it again. -/
theorem exists_performs_mainFile (s : IndexState) :
  ∃ answer directoryOps s' ops r t',
    Program.Performs (IndexOp.WithoutErrors sampleTreeSitter (fun _ => [.file mainFile]))
        (handleIndexDirectory directoryArgs) s directoryOps (.ok answer) s'
      ∧ Program.Performs IndexOp.Step (handleIndexFile mainFileContext mainFileArgs) s' ops r t'
  := by
  obtain ⟨answer, directoryOps, s', hdirectory⟩ := exists_performs_directory collects_mainFile s
  obtain ⟨r, t', hexec⟩ := Program.exec_total (withoutErrors_total collects_mainFile)
    (handleIndexFile mainFileContext mainFileArgs) s'
  obtain ⟨ops, hfile⟩ := Program.exists_performs hexec
  exact ⟨answer, directoryOps, s', ops, r, t', hdirectory, hfile.mono fun _ _ _ _ h => h.1⟩

/-- After a directory run, `mainFile` is indexed again with an unknown language and without its
function. -/
theorem reindexed_unlike_mainFile :
  ∃ answer directoryOps s' ops r t',
    Program.Performs (IndexOp.WithoutErrors sampleTreeSitter (fun _ => [.file mainFile]))
        (handleIndexDirectory directoryArgs) IndexState.empty directoryOps (.ok answer) s'
      ∧ Program.Performs IndexOp.Step (handleIndexFile mainFileContext mainFileArgs) s' ops r t'
      ∧ (∃ written, .addDocument written ∈ directoryOps ∧ written.language = "rust"
        ∧ .ok written.symbols = (.ok "main" : Outcome String String))
      ∧ ∀ doc, .addDocument doc ∈ ops → doc.language = "unknown" ∧ doc.symbols = ""
  := by
  obtain ⟨answer, directoryOps, s', ops, r, t', hdirectory, hfile⟩ :=
    exists_performs_mainFile IndexState.empty
  obtain ⟨written, hwritten, -, -, hlanguage, hsymbols, hdocs⟩ := reindexed_unlike mainFileContext
    (fun _ => [.file mainFile]) hdirectory hfile supported_mainFile ⟨rfl, rfl⟩ rfl
  refine ⟨answer, directoryOps, s', ops, r, t', hdirectory, hfile, ?_, ?_⟩
  · exact ⟨written, hwritten, hlanguage, hsymbols.trans symbolNames_mainSource⟩
  · intro doc hdoc
    obtain ⟨-, -, hunknown, hnone, -⟩ := hdocs doc hdoc
    exact ⟨hunknown, hnone⟩

/-- The document that a call is to write for `mainFile` has another language and other symbols than
the one that a directory run writes. -/
theorem not_reindexed_alike_mainFile :
  ¬ ∀ (context : IndexContext) (walk : String → List WalkEntry) (directoryArgs args answer : Json)
      (s s' : IndexState) (directoryOps : List IndexOp) (file : WalkedFile)
      (content language : String),
      Program.Performs (IndexOp.WithoutErrors context.treeSitter walk)
        (handleIndexDirectory directoryArgs) s directoryOps (.ok answer) s' →
      Supported walk directoryArgs file content language →
      NamesFile args file.path content → (args.get "language").bind Json.asStr = none →
        ∀ written, .addDocument written ∈ directoryOps → written.path = file.path →
          ∃ doc, indexFileDocument context args = .ok doc ∧ doc.SameFields written
  := by
  intro hall
  obtain ⟨answer, directoryOps, s', hdirectory⟩ :=
    exists_performs_directory collects_mainFile IndexState.empty
  obtain ⟨symbols, -, hwritten⟩ :=
    @written_of_supported mainFileContext _ _ _ _ _ _ _ _ _ hdirectory supported_mainFile
  obtain ⟨doc, hdoc, hsame⟩ := hall mainFileContext _ _ mainFileArgs _ _ _ _ _ _ _ hdirectory
    supported_mainFile ⟨rfl, rfl⟩ rfl _ hwritten rfl
  have hindexed := @indexFileDocument_eq mainFileContext mainFileArgs mainFile.path mainSource
    "unknown" "" ⟨rfl, rfl⟩ rfl (extractSymbolNamesForIndex_unknown _ mainSource)
  cases hindexed.symm.trans hdoc
  have hlanguages : "unknown" ≠ "rust" := by decide
  apply hlanguages hsame.language

end MainFile

end OrchestraRag
