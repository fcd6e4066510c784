import OrchestraRag.Index.Failure
import OrchestraRag.Library.Operations
import OrchestraRag.Library.Tally

/-!
# The files of a directory

`index_directory` walks a directory and collects the files with a supported extension.  A file
that cannot be read, is too large or is binary is collected as skipped, without content, language
and symbols.

The loop over the collected files does not look whether they are skipped: it replaces the
document of a skipped file by an empty one, and counts it as indexed as well
(`skipped_spared_iff`).
-/

namespace OrchestraRag

/-! ### The walk -/

/-- A regular file below the root of a walk: its path, the names on the path from the root to it,
its extension, and its content; a name or an extension may not be text, and the content may not
be readable as text. -/
structure WalkedFile where
  path : String
  names : List (Option String)
  extension : Option String
  content : Option String

/-- What a walk yields: an error, something that is no regular file, or a file. -/
inductive WalkEntry where
  | failed
  | other
  | file (file : WalkedFile)

/-- Larger files are skipped. -/
def maxFileSize : ℕ :=
  1000000

/-- The number of bytes in which a null byte makes a file binary. -/
def binaryCheckBytes : ℕ :=
  512

/-- Language detection from the file extension, for the ones the registry does not know. -/
def detectLanguageFromExt (ext : String) : String :=
  match ext with
  | "rs" => "rust"
  | "go" => "go"
  | "ts" => "typescript"
  | "tsx" => "tsx"
  | "js" | "jsx" => "javascript"
  | "py" => "python"
  | "rb" => "ruby"
  | "java" => "java"
  | "c" | "h" => "c"
  | "cpp" | "hpp" | "cc" | "cxx" => "cpp"
  | "cs" => "csharp"
  | "swift" => "swift"
  | "kt" | "kts" => "kotlin"
  | "html" | "htm" => "html"
  | "css" => "css"
  | "md" | "markdown" => "markdown"
  | "json" => "json"
  | "yaml" | "yml" => "yaml"
  | "toml" => "toml"
  | "sh" | "bash" => "bash"
  | "sql" => "sql"
  | _ => "unknown"

namespace WalkedFile

/-- The extension of a file that is to be collected: no name on its path is excluded, and the
extension is supported. -/
def wanted (exclude supported : List String) (file : WalkedFile) : Option String :=
  if file.names.any (fun name => name.any (fun n => n ∈ exclude)) then none
  else file.extension.filter (fun ext => ext ∈ supported)

/-- The text of a file that is not skipped. -/
def indexable (file : WalkedFile) : Option String :=
  match file.content with
  | none => none
  | some content =>
      if content.utf8ByteSize > maxFileSize then none
      else if 0 ∈ content.toUTF8.toList.take binaryCheckBytes then none
      else some content

/-- The language of a file. -/
def language (file : WalkedFile) (ext : String) : String :=
  (LanguageRegistry.new.detectLanguage file.path).getD (detectLanguageFromExt ext)

end WalkedFile

section Collecting

variable (treeSitter : TreeSitter)

/-- Extract symbol names from source content; none when it cannot be parsed. -/
def extractSymbolNames (content language : String) (extractor : SymbolExtractor) :
    Outcome String String × SymbolExtractor :=
  match extractor.extractSymbols treeSitter content language with
  | (.ok symbols, extractor) => (.ok (" ".intercalate (symbolNames symbols)), extractor)
  | (.error (.err _), extractor) => (.ok "", extractor)
  | (.error .panicked, extractor) => (.error .panicked, extractor)

/-- Collect a file with its symbols. -/
def collectFile (file : WalkedFile) (ext : String) (extractor : SymbolExtractor) :
    Outcome String CollectedFile × SymbolExtractor :=
  match file.indexable with
  | none => (.ok ⟨file.path, "", "", "", true⟩, extractor)
  | some content =>
      let language := file.language ext
      match extractSymbolNames treeSitter content language extractor with
      | (.ok symbols, extractor) => (.ok ⟨file.path, content, language, symbols, false⟩, extractor)
      | (.error e, extractor) => (.error e, extractor)

/-- Collect all indexable files of a walk with their symbols. -/
def collectFilesWithSymbols (exclude supported : List String) (extractor : SymbolExtractor) :
    List WalkEntry → Outcome String (List CollectedFile)
  | [] => .ok []
  | .failed :: entries => collectFilesWithSymbols exclude supported extractor entries
  | .other :: entries => collectFilesWithSymbols exclude supported extractor entries
  | .file file :: entries =>
      match file.wanted exclude supported with
      | none => collectFilesWithSymbols exclude supported extractor entries
      | some ext =>
          match collectFile treeSitter file ext extractor with
          | (.error e, _) => .error e
          | (.ok collected, extractor) => do
              let files ← collectFilesWithSymbols exclude supported extractor entries
              pure (collected :: files)

/-- The walk of a directory, in a task of its own: it answers with the files collected from what
`walk` yields, and with an error when the task panicked. -/
def IndexOp.AnswersWalk (walk : String → List WalkEntry) : (op : IndexOp) → IndexAns op → Prop
  | .collectFiles root exclude supported, x =>
      match collectFilesWithSymbols treeSitter exclude supported .new (walk root) with
      | .ok files => (x : Except String (List CollectedFile)) = .ok files
      | .error _ => ∃ e, (x : Except String (List CollectedFile)) = .error e
  | _, _ => True

/-- Steps of a call without errors: the walk answers with what was collected, and only deletions,
whose failure is no error, may fail. -/
def IndexOp.WithoutErrors (walk : String → List WalkEntry) :
    Semantics IndexOp IndexAns IndexState :=
  fun op s x s' => op.Step s x s' ∧ op.AnswersWalk treeSitter walk x
    ∧ ((∀ path, op ≠ .deleteDocument path) → op.Succeeds x)

end Collecting

/-! ### What is collected -/

theorem detectLanguageFromExt_ne_empty (ext : String) :
  detectLanguageFromExt ext ≠ ""
  := by
  rw [detectLanguageFromExt.eq_def]
  split <;> decide

/-- A language that is detected is one of the registry. -/
theorem mem_of_detectLanguage {path language : String}
    (h : LanguageRegistry.new.detectLanguage path = some language) :
  language ∈ LanguageRegistry.new.extensions.map Prod.snd
  := by
  obtain ⟨before, after, hsplit, -⟩ := List.lookup_eq_some_iff.mp h
  rw [hsplit, List.map_append]
  apply List.mem_append_right _ List.mem_cons_self

theorem WalkedFile.language_ne_empty (file : WalkedFile) (ext : String) :
  file.language ext ≠ ""
  := by
  rw [language]
  cases hlanguage : LanguageRegistry.new.detectLanguage file.path with
  | none => apply detectLanguageFromExt_ne_empty
  | some language =>
      have hnamed : ∀ language ∈ LanguageRegistry.new.extensions.map Prod.snd, language ≠ "" := by
        decide
      apply hnamed language (mem_of_detectLanguage hlanguage)

/-- A walk that answers with files has collected them. -/
theorem IndexOp.answersWalk_ok {treeSitter : TreeSitter} {walk : String → List WalkEntry}
    {root : String} {exclude supported : List String} {files : List CollectedFile} :
  (IndexOp.collectFiles root exclude supported).AnswersWalk treeSitter walk
      (Except.ok files : Except String (List CollectedFile))
    ↔ collectFilesWithSymbols treeSitter exclude supported .new (walk root) = .ok files
  := by
  have hdef : (IndexOp.collectFiles root exclude supported).AnswersWalk treeSitter walk
      (Except.ok files : Except String (List CollectedFile))
        ↔ match collectFilesWithSymbols treeSitter exclude supported .new (walk root) with
          | .ok collected =>
              (Except.ok files : Except String (List CollectedFile)) = .ok collected
          | .error _ => ∃ e, (Except.ok files : Except String (List CollectedFile)) = .error e :=
    Iff.rfl
  rw [hdef]
  cases collectFilesWithSymbols treeSitter exclude supported .new (walk root) with
  | error e =>
      constructor
      · rintro ⟨e', ⟨⟩⟩
      · rintro ⟨⟩
  | ok collected =>
      constructor
      · rintro ⟨⟩
        rfl
      · rintro ⟨⟩
        rfl

/-- Every file that is to be collected can be indexed. -/
def AllIndexable (exclude supported : List String) (entries : List WalkEntry) : Prop :=
  ∀ file, WalkEntry.file file ∈ entries → file.wanted exclude supported ≠ none →
    file.indexable ≠ none

/-- A collected file is skipped exactly if it cannot be indexed; otherwise it has a language. -/
structure CollectedFrom (file : WalkedFile) (collected : CollectedFile) : Prop where
  skipped : collected.skipped = true ↔ file.indexable = none
  language : collected.skipped = false → collected.language ≠ ""

section Collected

variable {treeSitter : TreeSitter} {exclude supported : List String} {extractor : SymbolExtractor}
  {entries : List WalkEntry} {files : List CollectedFile}

theorem collectedFrom {file : WalkedFile} {ext : String} {collected : CollectedFile}
    (h : (collectFile treeSitter file ext extractor).1 = .ok collected) :
  CollectedFrom file collected
  := by
  rw [collectFile] at h
  cases hindexable : file.indexable with
  | none =>
      rw [hindexable] at h
      cases h
      constructor
      · exact iff_of_true rfl hindexable
      · rintro ⟨⟩
  | some content =>
      rw [hindexable] at h
      dsimp only at h
      rcases hsymbols : extractSymbolNames treeSitter content (file.language ext) extractor with
        ⟨e | symbols, extractor'⟩
      · rw [hsymbols] at h
        cases h
      · rw [hsymbols] at h
        cases h
        constructor
        · rw [hindexable]
          exact iff_of_false Bool.false_ne_true (Option.some_ne_none content)
        · intro _
          apply file.language_ne_empty

/-- The walk passes over the entry. -/
def WalkEntry.Unwanted (exclude supported : List String) (entry : WalkEntry) : Prop :=
  ∀ file, entry = .file file → file.wanted exclude supported = none

/-- A walk over the entries collects the files. -/
inductive Collects (treeSitter : TreeSitter) (exclude supported : List String) :
    SymbolExtractor → List WalkEntry → List CollectedFile → Prop
  | nil {extractor : SymbolExtractor} : Collects treeSitter exclude supported extractor [] []
  | skip {extractor : SymbolExtractor} {entry : WalkEntry} {entries : List WalkEntry}
      {files : List CollectedFile} : entry.Unwanted exclude supported →
      Collects treeSitter exclude supported extractor entries files →
        Collects treeSitter exclude supported extractor (entry :: entries) files
  | take {extractor extractor' : SymbolExtractor} {file : WalkedFile} {ext : String}
      {collected : CollectedFile} {entries : List WalkEntry} {files : List CollectedFile} :
      file.wanted exclude supported = some ext →
      collectFile treeSitter file ext extractor = (.ok collected, extractor') →
      Collects treeSitter exclude supported extractor' entries files →
        Collects treeSitter exclude supported extractor (.file file :: entries) (collected :: files)

theorem collects_of_ok
    (h : collectFilesWithSymbols treeSitter exclude supported extractor entries = .ok files) :
  Collects treeSitter exclude supported extractor entries files
  := by
  induction entries generalizing extractor files with
  | nil =>
      cases h
      apply Collects.nil
  | cons entry entries ih =>
      cases entry with
      | failed =>
          apply Collects.skip _ (ih h)
          rintro file ⟨⟩
      | other =>
          apply Collects.skip _ (ih h)
          rintro file ⟨⟩
      | file file =>
          rw [collectFilesWithSymbols] at h
          cases hwanted : file.wanted exclude supported with
          | none =>
              rw [hwanted] at h
              apply Collects.skip _ (ih h)
              rintro file' ⟨⟩
              apply hwanted
          | some ext =>
              rw [hwanted] at h
              dsimp only at h
              rcases hcollect : collectFile treeSitter file ext extractor with
                ⟨e | collected, extractor'⟩
              · rw [hcollect] at h
                cases h
              · rw [hcollect] at h
                obtain ⟨rest, hrest, hfiles⟩ := Outcome.bind_eq_ok.mp h
                cases hfiles
                apply Collects.take hwanted hcollect (ih hrest)

theorem allIndexable_cons_of_unwanted {entry : WalkEntry}
    (h : entry.Unwanted exclude supported) :
  AllIndexable exclude supported (entry :: entries) ↔ AllIndexable exclude supported entries
  := by
  constructor
  · intro hall file hfile
    apply hall file (List.mem_cons_of_mem _ hfile)
  · intro hall file hfile hwanted
    rcases List.mem_cons.mp hfile with heq | hfile
    · apply absurd (h file heq.symm) hwanted
    · apply hall file hfile hwanted

theorem allIndexable_cons_of_wanted {file : WalkedFile}
    (h : file.wanted exclude supported ≠ none) :
  AllIndexable exclude supported (.file file :: entries)
    ↔ file.indexable ≠ none ∧ AllIndexable exclude supported entries
  := by
  constructor
  · intro hall
    use hall file List.mem_cons_self h
    intro other hother
    apply hall other (List.mem_cons_of_mem _ hother)
  · rintro ⟨hfirst, hall⟩ other hother
    rcases List.mem_cons.mp hother with heq | hother
    · cases heq
      intro _
      apply hfirst
    · apply hall other hother

/-- What is collected from a walk. -/
theorem collected_spec (h : Collects treeSitter exclude supported extractor entries files) :
  (∀ collected ∈ files, collected.skipped = false → collected.language ≠ "")
    ∧ ((∀ collected ∈ files, collected.skipped = false) ↔ AllIndexable exclude supported entries)
  := by
  induction h with
  | nil =>
      constructor
      · rintro collected ⟨⟩
      · apply iff_of_true
        · rintro collected ⟨⟩
        · rintro file ⟨⟩
  | skip hunwanted _ ih =>
      rw [allIndexable_cons_of_unwanted hunwanted]
      apply ih
  | @take extractor extractor' file ext collected entries files hwanted hcollect _ ih =>
      have hcollected : CollectedFrom file collected := by
        apply @collectedFrom treeSitter extractor file ext
        rw [hcollect]
      have hsome : file.wanted exclude supported ≠ none := hwanted ▸ Option.some_ne_none ext
      constructor
      · rw [List.forall_mem_cons]
        exact ⟨hcollected.language, ih.1⟩
      · rw [List.forall_mem_cons, allIndexable_cons_of_wanted hsome, ih.2, ← Bool.not_eq_true,
          hcollected.skipped]

end Collected

/-! ### What a call does with the files -/

/-- The step deletes the documents at a path, or adds one there. -/
def IndexOp.Touches (path : String) : IndexOp → Prop
  | .deleteDocument path' => path' = path
  | .addDocument doc => doc.path = path
  | _ => False

namespace IndexCounts

/-- The counts of a loop over files with these languages. -/
abbrev ofLanguages (languages : List String) : IndexCounts :=
  languages.foldl added .new

/-- What the loop has counted when nothing went wrong. -/
theorem ofLanguages_eq (languages : List String) :
  ofLanguages languages = ⟨languages.length, 0, [], Tally.tally languages⟩
  := by
  induction languages using List.reverseRecOn with
  | nil => rfl
  | append_singleton languages language ih =>
      have hlast : ofLanguages (languages ++ [language]) = (ofLanguages languages).added language :=
        List.foldl_concat _ _ _ _
      rw [hlast, ih, Tally.tally_append_singleton, List.length_append, List.length_singleton]
      rfl

/-- The answer with these counts. -/
def answer (counts : IndexCounts) (skipped : ℕ) (durationMs : UInt64) : Json :=
  let number (n : ℕ) : Json := .number (.posInt (.ofNat n))
  .object (SortedMap.collect
    [("indexed", number counts.indexed),
      ("skipped", number skipped),
      ("errors", number counts.errors),
      ("duration_ms", .number (.posInt durationMs)),
      ("languages", .object (counts.languages.map (fun (language, n) => (language, number n)))),
      ("error_details", .array (counts.errorDetails.map Json.string))])

end IndexCounts

section Running

variable {treeSitter : TreeSitter} {walk : String → List WalkEntry} {s s' : IndexState}
  {counts : IndexCounts} {files : List CollectedFile} {ops : List IndexOp}

/-- A collected file is deleted, added and counted, whether it is skipped or not. -/
theorem performs_indexCollected {file : CollectedFile} {r : Outcome String IndexCounts}
    (h : Program.Performs (IndexOp.WithoutErrors treeSitter walk) (indexCollected counts file)
      s ops r s') :
  r = .ok (counts.added file.language)
    ∧ .deleteDocument file.path ∈ ops ∧ .addDocument file.document ∈ ops
  := by
  obtain ⟨_, s₁, rest, rfl, -, h⟩ := Program.performs_step.mp h
  obtain ⟨_, s₂, rest, rfl, hadd, h⟩ := Program.performs_step.mp h
  obtain rfl := hadd.2.2 (by rintro path ⟨⟩)
  have hops : .deleteDocument file.path ∈ IndexOp.deleteDocument file.path ::
      IndexOp.addDocument file.document :: rest
        ∧ .addDocument file.document ∈ IndexOp.deleteDocument file.path ::
          IndexOp.addDocument file.document :: rest :=
    ⟨List.mem_cons_self, List.mem_cons_of_mem _ List.mem_cons_self⟩
  by_cases hbatch : (counts.added file.language).indexed % 100 = 0
  · simp only [hbatch, if_true] at h
    obtain ⟨_, s₃, rest, rfl, hcommit, h⟩ := Program.performs_step.mp h
    obtain rfl := hcommit.2.2 (by rintro path ⟨⟩)
    obtain ⟨rfl, rfl, rfl⟩ := Program.performs_ret.mp h
    exact ⟨rfl, hops⟩
  · simp only [hbatch, if_false] at h
    obtain ⟨rfl, rfl, rfl⟩ := Program.performs_ret.mp h
    exact ⟨rfl, hops⟩

theorem performs_indexFiles {r : Outcome String IndexCounts}
    (h : Program.Performs (IndexOp.WithoutErrors treeSitter walk) (indexFiles counts files)
      s ops r s') :
  r = .ok ((files.map CollectedFile.language).foldl IndexCounts.added counts)
    ∧ ∀ file ∈ files, .deleteDocument file.path ∈ ops ∧ .addDocument file.document ∈ ops
  := by
  induction files generalizing counts s ops with
  | nil =>
      obtain ⟨rfl, rfl, rfl⟩ := Program.performs_ret.mp h
      use rfl
      rintro file ⟨⟩
  | cons file files ih =>
      rcases Program.performs_fallible_bind h with
        ⟨counts', s₁, first, rest, rfl, hfirst, hrest⟩ | ⟨e, -, hfirst⟩
      · obtain ⟨⟨⟩, hops⟩ := performs_indexCollected hfirst
        obtain ⟨hcounts, hothers⟩ := ih hrest
        use hcounts
        intro file' hfile'
        rcases List.mem_cons.mp hfile' with rfl | hfile'
        · exact ⟨List.mem_append_left _ hops.1, List.mem_append_left _ hops.2⟩
        · obtain ⟨hdelete, hadd⟩ := hothers file' hfile'
          exact ⟨List.mem_append_right _ hdelete, List.mem_append_right _ hadd⟩
      · obtain ⟨⟨⟩, -⟩ := performs_indexCollected hfirst

/-- Every collected file is indexed and counted; those that are skipped are counted again. -/
theorem performs_indexWalk {r : Outcome String Json}
    (h : Program.Performs (IndexOp.WithoutErrors treeSitter walk) (indexWalk files) s ops r s') :
  (∃ durationMs, r = .ok ((IndexCounts.ofLanguages (files.map CollectedFile.language)).answer
      (files.filter CollectedFile.skipped).length durationMs))
    ∧ ∀ file ∈ files, .deleteDocument file.path ∈ ops ∧ .addDocument file.document ∈ ops
  := by
  rcases Program.performs_fallible_bind h with
    ⟨counts, s₁, first, rest, rfl, hfiles, h⟩ | ⟨e, -, hfiles⟩
  · obtain ⟨⟨⟩, hops⟩ := performs_indexFiles hfiles
    obtain ⟨_, s₂, rest, rfl, hcommit, h⟩ := Program.performs_step.mp h
    obtain rfl := hcommit.2.2 (by rintro path ⟨⟩)
    obtain ⟨_, s₃, rest, rfl, hreload, h⟩ := Program.performs_step.mp h
    obtain rfl := hreload.2.2 (by rintro path ⟨⟩)
    obtain ⟨durationMs, s₄, rest, rfl, -, h⟩ := Program.performs_step.mp h
    obtain ⟨rfl, rfl, rfl⟩ := Program.performs_ret.mp h
    use ⟨durationMs, rfl⟩
    intro file hfile
    obtain ⟨hdelete, hadd⟩ := hops file hfile
    exact ⟨List.mem_append_left _ hdelete, List.mem_append_left _ hadd⟩
  · obtain ⟨⟨⟩, -⟩ := performs_indexFiles hfiles

theorem performs_indexTree {root : String} {exclude supported : List String}
    {r : Outcome String Json}
    (h : Program.Performs (IndexOp.WithoutErrors treeSitter walk) (indexTree root exclude supported)
      s ops r s') :
  ∃ files, collectFilesWithSymbols treeSitter exclude supported .new (walk root) = .ok files
    ∧ (∃ durationMs, r
      = .ok ((IndexCounts.ofLanguages (files.map CollectedFile.language)).answer
        (files.filter CollectedFile.skipped).length durationMs))
    ∧ ∀ file ∈ files, .deleteDocument file.path ∈ ops ∧ .addDocument file.document ∈ ops
  := by
  obtain ⟨x, s₁, rest, rfl, ⟨-, hwalk, hsucceeds⟩, h⟩ := Program.performs_step.mp h
  obtain ⟨files, rfl⟩ := hsucceeds (by rintro path ⟨⟩)
  obtain ⟨hanswer, hops⟩ := performs_indexWalk h
  use files, IndexOp.answersWalk_ok.mp hwalk, hanswer
  intro file hfile
  obtain ⟨hdelete, hadd⟩ := hops file hfile
  exact ⟨List.mem_cons_of_mem _ hdelete, List.mem_cons_of_mem _ hadd⟩

/-- A call that returns has indexed every file that it collected. -/
theorem performs_handleIndexDirectory {args answer : Json}
    (h : Program.Performs (IndexOp.WithoutErrors treeSitter walk) (handleIndexDirectory args)
      s ops (.ok answer) s') :
  ∃ root exclude supported files, walkArguments args = .ok (root, exclude, supported)
    ∧ collectFilesWithSymbols treeSitter exclude supported .new (walk root) = .ok files
    ∧ (∃ durationMs, answer
      = (IndexCounts.ofLanguages (files.map CollectedFile.language)).answer
        (files.filter CollectedFile.skipped).length durationMs)
    ∧ ∀ file ∈ files, .deleteDocument file.path ∈ ops ∧ .addDocument file.document ∈ ops
  := by
  rw [handleIndexDirectory] at h
  rcases hargs : walkArguments args with e | ⟨root, exclude, supported⟩
  · rw [hargs] at h
    obtain ⟨-, ⟨⟩, -⟩ := Program.performs_ret.mp h
  · rw [hargs] at h
    have htree : ∃ s₁ first rest, ops = first ++ rest
        ∧ Program.Performs (IndexOp.WithoutErrors treeSitter walk)
          (indexTree root exclude supported) s₁ rest (.ok answer) s' := by
      cases hclear : clearFirst args with
      | false =>
          rw [hclear] at h
          exact ⟨s, [], ops, rfl, h⟩
      | true =>
          rw [hclear] at h
          have hcall : Program.Performs (IndexOp.WithoutErrors treeSitter walk)
              (do
                let cleared ← IndexManager.clearIndex
                IndexM.named "clear_index failed: " cleared
                indexTree root exclude supported : IndexM Json)
              s ops (.ok answer) s' := h
          rcases Program.performs_fallible_bind hcall with
            ⟨cleared, s₁, first, rest, rfl, -, hrest⟩ | ⟨e, ⟨⟩, -⟩
          rcases Program.performs_fallible_bind hrest with
            ⟨_, s₂, first', rest, rfl, -, htree⟩ | ⟨e, ⟨⟩, -⟩
          exact ⟨s₂, first ++ first', rest, (List.append_assoc _ _ _).symm, htree⟩
    obtain ⟨s₁, first, rest, rfl, htree⟩ := htree
    obtain ⟨files, hcollected, ⟨durationMs, ⟨⟩⟩, hops⟩ := performs_indexTree htree
    refine ⟨root, exclude, supported, files, rfl, hcollected, ⟨durationMs, rfl⟩, ?_⟩
    intro file hfile
    obtain ⟨hdelete, hadd⟩ := hops file hfile
    exact ⟨List.mem_append_right _ hdelete, List.mem_append_right _ hadd⟩

end Running

/-! ### Skipped files -/

/-- No document of a skipped file is deleted or written, every collected file is counted as indexed
or as skipped, and the languages, none of which is empty, as often as there are indexed files. -/
structure SkippedSpared (files : List CollectedFile) (ops : List IndexOp) (answer : Json) :
    Prop where
  spared : ∀ file ∈ files, file.skipped = true → ∀ op ∈ ops, ¬ op.Touches file.path
  counted : ∃ (indexed skipped : ℕ) (languages : List (String × ℕ)),
    answer.get "indexed" = some (.number (.posInt (.ofNat indexed)))
      ∧ answer.get "skipped" = some (.number (.posInt (.ofNat skipped)))
      ∧ answer.get "languages" = some (.object (languages.map (fun (language, n) =>
        (language, .number (.posInt (.ofNat n))))))
      ∧ indexed + skipped = files.length
      ∧ (languages.map Prod.snd).sum = indexed
      ∧ ∀ e ∈ languages, e.1 ≠ ""

theorem skippedSpared_of_none_skipped {files : List CollectedFile} (ops : List IndexOp)
    (durationMs : UInt64) (hskipped : ∀ file ∈ files, file.skipped = false)
    (hlanguages : ∀ file ∈ files, file.language ≠ "") :
  SkippedSpared files ops ((IndexCounts.ofLanguages (files.map CollectedFile.language)).answer
    (files.filter CollectedFile.skipped).length durationMs)
  := by
  have hnone : files.filter CollectedFile.skipped = [] := by
    rw [List.filter_eq_nil_iff]
    intro file hfile
    rw [hskipped file hfile]
    apply Bool.false_ne_true
  rw [hnone, IndexCounts.ofLanguages_eq, List.length_map]
  constructor
  · intro file hfile htrue
    rw [hskipped file hfile] at htrue
    cases htrue
  · use files.length, 0, Tally.tally (files.map CollectedFile.language)
    refine ⟨?_, ?_, ?_, rfl, ?_, ?_⟩
    · rw [IndexCounts.answer, Json.get_collect]
      rfl
    · rw [IndexCounts.answer, Json.get_collect]
      rfl
    · rw [IndexCounts.answer, Json.get_collect]
      rfl
    · apply (Tally.sum_tally _).trans (List.length_map _)
    · intro e he
      obtain ⟨file, hfile, hlanguage⟩ := List.mem_map.mp (Tally.mem_of_mem_tally he)
      rw [← hlanguage]
      apply hlanguages file hfile

/-- A call without errors spares the skipped files, and its counts add up, exactly when every file
that is to be collected can be indexed. -/
theorem skipped_spared_iff (treeSitter : TreeSitter) (walk : String → List WalkEntry)
    {args answer : Json} {s s' : IndexState} {ops : List IndexOp}
    (h : Program.Performs (IndexOp.WithoutErrors treeSitter walk) (handleIndexDirectory args)
      s ops (.ok answer) s') :
  ∃ root exclude supported files, walkArguments args = .ok (root, exclude, supported)
    ∧ collectFilesWithSymbols treeSitter exclude supported .new (walk root) = .ok files
    ∧ (SkippedSpared files ops answer ↔ AllIndexable exclude supported (walk root))
  := by
  obtain ⟨root, exclude, supported, files, hargs, hcollected, ⟨durationMs, rfl⟩, hops⟩ :=
    performs_handleIndexDirectory h
  obtain ⟨hlanguages, hindexable⟩ := collected_spec (collects_of_ok hcollected)
  refine ⟨root, exclude, supported, files, hargs, hcollected, ?_⟩
  rw [← hindexable]
  constructor
  · intro hspared file hfile
    rw [← Bool.not_eq_true]
    intro hskipped
    apply hspared.spared file hfile hskipped _ (hops file hfile).1 rfl
  · intro hskipped
    apply skippedSpared_of_none_skipped ops durationMs hskipped
    intro file hfile
    apply hlanguages file hfile (hskipped file hfile)

/-- Every step has an answer without errors when no walk makes the extraction panic. -/
theorem withoutErrors_total {treeSitter : TreeSitter} {walk : String → List WalkEntry}
    (hwalk : ∀ root exclude supported, ∃ files,
      collectFilesWithSymbols treeSitter exclude supported .new (walk root) = .ok files)
    (op : IndexOp) (s : IndexState) :
  ∃ x s', IndexOp.WithoutErrors treeSitter walk op s x s'
  := by
  cases op with
  | collectFiles root exclude supported =>
      obtain ⟨files, hfiles⟩ := hwalk root exclude supported
      use (Except.ok files : Except String (List CollectedFile)), s
      exact ⟨⟨_, rfl, Or.inl rfl⟩, IndexOp.answersWalk_ok.mpr hfiles, fun _ => ⟨files, rfl⟩⟩
  | elapsedMs =>
      use (0 : UInt64), s
      exact ⟨⟨_, rfl, Or.inl rfl⟩, trivial, fun _ => trivial⟩
  | deleteDocument path =>
      use (Except.ok () : Except String Unit), s.queue (.delete path)
      exact ⟨⟨_, rfl, Or.inl rfl⟩, trivial, fun _ => rfl⟩
  | addDocument doc =>
      use (Except.ok () : Except String Unit), s.queue (.add doc)
      exact ⟨⟨_, rfl, Or.inl rfl⟩, trivial, fun _ => rfl⟩
  | commit =>
      use (Except.ok () : Except String Unit), s.publish
      exact ⟨⟨_, rfl, Or.inl rfl⟩, trivial, fun _ => rfl⟩
  | clear =>
      use (Except.ok () : Except String Unit), (s.queue .deleteAll).publish
      exact ⟨⟨_, rfl, Or.inl rfl⟩, trivial, fun _ => rfl⟩
  | reload =>
      use (Except.ok () : Except String Unit), s.reload
      exact ⟨⟨_, rfl, Or.inl rfl⟩, trivial, fun _ => rfl⟩

/-- The arguments of a call on one directory. -/
def directoryArgs : Json :=
  .object [("path", .string "/project")]

/-- A call on a directory returns when no walk makes the extraction panic. -/
theorem exists_performs_directory {treeSitter : TreeSitter} {walk : String → List WalkEntry}
    (hwalk : ∀ root exclude supported, ∃ files,
      collectFilesWithSymbols treeSitter exclude supported .new (walk root) = .ok files)
    (s : IndexState) :
  ∃ answer ops s', Program.Performs (IndexOp.WithoutErrors treeSitter walk)
    (handleIndexDirectory directoryArgs) s ops (.ok answer) s'
  := by
  obtain ⟨r, s', h⟩ :=
    Program.exec_total (withoutErrors_total hwalk) (handleIndexDirectory directoryArgs) s
  obtain ⟨ops, h⟩ := Program.exists_performs h
  have htree : Program.Performs (IndexOp.WithoutErrors treeSitter walk)
      (indexTree "/project" defaultExcludes (LanguageRegistry.new.extensions.map Prod.fst))
      s ops r s' := h
  obtain ⟨files, -, ⟨durationMs, rfl⟩, -⟩ := performs_indexTree htree
  exact ⟨_, ops, s', h⟩

section Unreadable

/-- A source file that cannot be read as text. -/
def unreadableFile : WalkedFile where
  path := "/project/main.rs"
  names := [some "main.rs"]
  extension := some "rs"
  content := none

/-- A Tree-sitter that accepts no language. -/
def noGrammars : TreeSitter where
  setLanguage _ := .error "no grammar"
  parse _ _ := none
  toSexp _ := ""

/-- A call on a directory with an unreadable file returns. -/
theorem exists_performs_unreadable (s : IndexState) :
  ∃ answer ops s', Program.Performs (IndexOp.WithoutErrors noGrammars
    (fun _ => [.file unreadableFile])) (handleIndexDirectory directoryArgs) s ops (.ok answer) s'
  := by
  apply exists_performs_directory
  intro root exclude supported
  rw [collectFilesWithSymbols]
  cases unreadableFile.wanted exclude supported with
  | none => exact ⟨_, rfl⟩
  | some ext => exact ⟨_, rfl⟩

theorem collected_unreadable :
  collectFilesWithSymbols noGrammars defaultExcludes
      (LanguageRegistry.new.extensions.map Prod.fst) .new [.file unreadableFile]
    = .ok [⟨"/project/main.rs", "", "", "", true⟩]
  := by
  have hwanted : unreadableFile.wanted defaultExcludes
      (LanguageRegistry.new.extensions.map Prod.fst) = some "rs" := by
    decide
  rw [collectFilesWithSymbols, hwanted]
  rfl

/-- The file that cannot be read is indexed. -/
theorem skipped_spared_iff_unreadable :
  ∃ answer ops s', Program.Performs (IndexOp.WithoutErrors noGrammars
        (fun _ => [.file unreadableFile])) (handleIndexDirectory directoryArgs) IndexState.empty ops
        (.ok answer) s'
      ∧ ¬ SkippedSpared [⟨"/project/main.rs", "", "", "", true⟩] ops answer
  := by
  obtain ⟨answer, ops, s', h⟩ := exists_performs_unreadable IndexState.empty
  use answer, ops, s', h
  obtain ⟨root, exclude, supported, files, hargs, hcollected, hiff⟩ :=
    skipped_spared_iff noGrammars (fun _ => [.file unreadableFile]) h
  cases hargs
  cases collected_unreadable.symm.trans hcollected
  rw [hiff]
  intro hall
  apply hall unreadableFile List.mem_cons_self
  · decide
  · rfl

/-- Of a directory with an unreadable file, its document is deleted, an empty one is written, and
the file is counted twice. -/
theorem not_spared_unreadable :
  ¬ ∀ (treeSitter : TreeSitter) (walk : String → List WalkEntry) (args answer : Json)
      (s s' : IndexState) (ops : List IndexOp) (root : String) (exclude supported : List String)
      (files : List CollectedFile),
      Program.Performs (IndexOp.WithoutErrors treeSitter walk) (handleIndexDirectory args) s ops
        (.ok answer) s' →
      walkArguments args = .ok (root, exclude, supported) →
      collectFilesWithSymbols treeSitter exclude supported .new (walk root) = .ok files →
        SkippedSpared files ops answer
  := by
  intro hall
  obtain ⟨answer, ops, s', h⟩ := exists_performs_unreadable IndexState.empty
  have hspared := hall _ _ _ _ _ _ _ _ _ _ _ h rfl collected_unreadable
  obtain ⟨root, exclude, supported, files, hargs, hcollected, -, hops⟩ :=
    performs_handleIndexDirectory h
  cases hargs
  cases collected_unreadable.symm.trans hcollected
  apply hspared.spared _ List.mem_cons_self rfl _ (hops _ List.mem_cons_self).1 rfl

end Unreadable

end OrchestraRag
