import OrchestraRag.Index.Directory
import OrchestraRag.Library.UnixPath
import OrchestraRag.Lsp.Document

/-!
# Language detection

`detect_language` looks up what follows the last dot of a path, and the whole path when it has no
dot.  That is the extension of the path when the path ends with it; it is none for a file such as
`go` or `.md`, and a path may have separators after its extension (`detects_by_extension_iff`).
-/

namespace OrchestraRag

/-! ### Extensions -/

/-- The extension of a path, as `index_directory` reads it. -/
def pathExtension (path : String) : Option (List Char) :=
  UnixPath.extension path.toList

/-- What follows the last dot of a path; the whole path when it has no dot. -/
def dottedEnd (path : String) : List Char :=
  UnixPath.afterLast '.' path.toList

/-- The path ends with a dot and its extension. -/
def EndsInExtension (path : String) : Prop :=
  ∃ ext, pathExtension path = some ext ∧ '.' :: ext <:+ path.toList

theorem endsInExtension_iff {path : String} :
  EndsInExtension path ↔ pathExtension path = some (dottedEnd path)
  := UnixPath.extension_eq_afterLast_iff.symm

namespace LanguageRegistry

/-- The language registered for an extension. -/
def languageOf (registry : LanguageRegistry) (ext : List Char) : Option String :=
  registry.extensions.lookup (String.ofList ext)

theorem detectLanguage_eq (registry : LanguageRegistry) (path : String) :
  registry.detectLanguage path = registry.languageOf (dottedEnd path)
  := rfl

/-- An extension is in the set of supported ones when a language is registered for it. -/
theorem mem_supported_iff (registry : LanguageRegistry) (ext : List Char) :
  String.ofList ext ∈ registry.extensions.map Prod.fst ↔ (registry.languageOf ext).isSome
  := by
  rw [languageOf, List.lookup_isSome_iff, List.mem_map]
  constructor
  · rintro ⟨entry, hentry, hext⟩
    exact ⟨entry, hentry, beq_iff_eq.mpr hext.symm⟩
  · rintro ⟨entry, hentry, hext⟩
    exact ⟨entry, hentry, (beq_iff_eq.mp hext).symm⟩

/-- Detection looks at the extension only: it finds the language registered for what follows the
stem of the file name and a dot, agrees with the test that `index_directory` makes, and finds
nothing for a path without extension. -/
structure DetectsByExtension (registry : LanguageRegistry) (path : String) : Prop where
  detected : ∀ language, registry.detectLanguage path = some language ↔
    ∃ stem ext, UnixPath.fileName path.toList = some (stem ++ '.' :: ext) ∧ stem ≠ []
      ∧ '.' ∉ ext ∧ registry.languageOf ext = some language
  indexed : ∀ file : WalkedFile, file.path = path →
    file.extension = (pathExtension path).map String.ofList →
      ((registry.detectLanguage path).isSome
        ↔ (file.wanted [] (registry.extensions.map Prod.fst)).isSome)
  unnamed : pathExtension path = none → registry.detectLanguage path = none

/-- The path ends with its extension, or has none and no language is registered for what follows
its last dot, or the same language is registered for both. -/
def ReadsExtension (registry : LanguageRegistry) (path : String) : Prop :=
  EndsInExtension path
    ∨ (pathExtension path = none ∧ registry.languageOf (dottedEnd path) = none)
    ∨ ∃ ext, pathExtension path = some ext
      ∧ registry.languageOf ext = registry.languageOf (dottedEnd path)

/-- A file that is not excluded is wanted when a language is registered for its extension. -/
theorem wanted_isSome_iff (registry : LanguageRegistry) {file : WalkedFile}
    {ext : Option (List Char)} (h : file.extension = ext.map String.ofList) :
  (file.wanted [] (registry.extensions.map Prod.fst)).isSome
    ↔ (ext.bind registry.languageOf).isSome
  := by
  have hnames :
      file.names.any (fun name => name.any (fun n => n ∈ ([] : List String))) = false := by
    simp
  rw [WalkedFile.wanted, hnames, if_neg Bool.false_ne_true, h]
  cases ext with
  | none => rfl
  | some ext =>
      rw [Option.bind_some, ← mem_supported_iff]
      simp

/-- Detection looks at the extension only exactly when it reads the language of the extension. -/
theorem detectsByExtension_iff_eq {registry : LanguageRegistry} {path : String} :
  registry.DetectsByExtension path
    ↔ registry.detectLanguage path = (pathExtension path).bind registry.languageOf
  := by
  have hspec : ∀ language, (pathExtension path).bind registry.languageOf = some language ↔
      ∃ stem ext, UnixPath.fileName path.toList = some (stem ++ '.' :: ext) ∧ stem ≠ []
        ∧ '.' ∉ ext ∧ registry.languageOf ext = some language := by
    intro language
    rw [Option.bind_eq_some_iff]
    constructor
    · rintro ⟨ext, hext, hlanguage⟩
      obtain ⟨stem, hname, hstem, hdot⟩ := UnixPath.extension_eq_some_iff.mp hext
      exact ⟨stem, ext, hname, hstem, hdot, hlanguage⟩
    · rintro ⟨stem, ext, hname, hstem, hdot, hlanguage⟩
      exact ⟨ext, UnixPath.extension_eq_some_iff.mpr ⟨stem, hname, hstem, hdot⟩, hlanguage⟩
  constructor
  · intro h
    apply Option.ext
    intro language
    rw [h.detected, hspec]
  · intro h
    constructor
    · intro language
      rw [h, hspec]
    · intro file _ hext
      rw [h, registry.wanted_isSome_iff hext]
    · intro hnone
      rw [h, hnone, Option.bind_none]

theorem detectsByExtension_iff (registry : LanguageRegistry) (path : String) :
  registry.DetectsByExtension path ↔ registry.ReadsExtension path
  := by
  rw [detectsByExtension_iff_eq, detectLanguage_eq, ReadsExtension, endsInExtension_iff]
  cases hext : pathExtension path with
  | none => simp
  | some ext =>
      rw [Option.bind_some]
      constructor
      · intro h
        apply Or.inr
        apply Or.inr
        exact ⟨ext, rfl, h.symm⟩
      · rintro (hend | ⟨hnone, -⟩ | ⟨ext', hext', h⟩)
        · rw [Option.some.inj hend]
        · cases hnone
        · obtain rfl := Option.some.inj hext'
          apply h.symm

/-- A registry with one more extension. -/
theorem languageOf_registerLanguage (registry : LanguageRegistry) (name : String)
    (language : Language) (ext ext' : List Char) :
  (registry.registerLanguage name language [String.ofList ext]).languageOf ext'
    = if ext' = ext then some name else registry.languageOf ext'
  := by
  rw [languageOf, registerLanguage, List.foldl_cons, List.foldl_nil, SortedMap.lookup_insert]
  by_cases h : ext' = ext
  · rw [if_pos h, if_pos (congrArg String.ofList h)]
  · rw [if_neg h, if_neg]
    · rfl
    · intro hsame
      apply h (String.ofList_injective hsame)

/-- On any other path some registry finds another language than that of the extension. -/
theorem exists_not_detectsByExtension {path : String} (h : ¬ EndsInExtension path) :
  ∃ registry : LanguageRegistry, ¬ registry.DetectsByExtension path
  := by
  rw [endsInExtension_iff] at h
  obtain ⟨name, hname⟩ : ∃ name, some name ≠ (pathExtension path).bind new.languageOf := by
    by_cases hrust : some "rust" = (pathExtension path).bind new.languageOf
    · use "go"
      rw [← hrust]
      decide
    · use "rust"
  use new.registerLanguage name ⟨""⟩ [String.ofList (dottedEnd path)]
  rw [detectsByExtension_iff_eq, detectLanguage_eq, languageOf_registerLanguage, if_pos rfl]
  cases hext : pathExtension path with
  | none =>
      rw [Option.bind_none]
      apply Option.some_ne_none
  | some ext =>
      rw [hext] at h hname
      rw [Option.bind_some, languageOf_registerLanguage, if_neg (mt (congrArg some) h)]
      apply hname

end LanguageRegistry

/-- Detection looks at the extension only exactly when the path ends with its extension, or what
follows its last dot is registered as the extension is; with every registry, exactly when the path
ends with its extension. -/
theorem detects_by_extension_iff (path : String) :
  (∀ registry : LanguageRegistry,
      registry.DetectsByExtension path ↔ registry.ReadsExtension path)
    ∧ ((∀ registry : LanguageRegistry, registry.DetectsByExtension path)
      ↔ EndsInExtension path)
  := by
  constructor
  · intro registry
    apply registry.detectsByExtension_iff
  · constructor
    · intro hall
      by_contra h
      obtain ⟨registry, hregistry⟩ := LanguageRegistry.exists_not_detectsByExtension h
      apply hregistry (hall registry)
    · intro h registry
      apply (registry.detectsByExtension_iff path).mpr (Or.inl h)

/-- A path without a dot is looked up as a whole, but has no extension. -/
theorem detectLanguage_undotted (registry : LanguageRegistry) {path : String}
    (hdot : '.' ∉ path.toList) :
  registry.detectLanguage path = registry.languageOf path.toList ∧ pathExtension path = none
  := by
  rw [LanguageRegistry.detectLanguage_eq, dottedEnd, UnixPath.afterLast_of_notMem hdot]
  use rfl
  cases hext : pathExtension path with
  | none => rfl
  | some ext =>
      obtain ⟨stem, hname, -⟩ := UnixPath.extension_eq_some_iff.mp hext
      apply absurd (UnixPath.mem_of_mem_fileName hname List.mem_append_cons_self) hdot

/-- A file whose name is a dot and a registered extension is detected, but has no extension. -/
theorem detectLanguage_dotFile (registry : LanguageRegistry) (dir : List Char) {ext : List Char}
    (hslash : '/' ∉ ext) (hempty : ext ≠ []) (hdot : '.' ∉ ext) :
  registry.detectLanguage (String.ofList (dir ++ '/' :: '.' :: ext)) = registry.languageOf ext
    ∧ pathExtension (String.ofList (dir ++ '/' :: '.' :: ext)) = none
  := by
  rw [LanguageRegistry.detectLanguage_eq, dottedEnd, pathExtension, String.toList_ofList]
  constructor
  · have hpath : dir ++ '/' :: '.' :: ext = (dir ++ ['/']) ++ '.' :: ext := by
      rw [List.append_assoc, List.singleton_append]
    rw [hpath, UnixPath.afterLast_append_cons _ hdot]
  · apply UnixPath.extension_dotFile dir hslash hempty hdot

/-- The file `docs/.md` is detected as Markdown. -/
theorem not_detects_by_extension_dotFile :
  detectLanguage "docs/.md" = some "markdown"
    ∧ ¬ LanguageRegistry.new.DetectsByExtension "docs/.md"
  := by
  obtain ⟨hdetected, hunnamed⟩ :=
    @detectLanguage_dotFile .new "docs".toList "md".toList (by decide) (by decide) (by decide)
  have hlanguage : LanguageRegistry.new.languageOf "md".toList = some "markdown" := by decide
  constructor
  · apply hdetected.trans hlanguage
  · intro h
    have hnone := h.unnamed hunnamed
    rw [hlanguage] at hdetected
    cases hdetected.symm.trans hnone

end OrchestraRag
