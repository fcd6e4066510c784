import OrchestraRag.Index.Detection
import OrchestraRag.Library.Latest

/-!
# Registered languages

A language registry is what the registrations make it, the built-in ones first: a name has the
grammar that was registered last for it, and an extension the language that was registered last
with it.  A language that is detected has a grammar (`languages_latest`), since a name that was
registered stays so.
-/

namespace OrchestraRag

open Latest

/-! ### Registrations -/

namespace LanguageRegistry

/-- A name, a grammar, and the extensions of its files. -/
abbrev Registration : Type :=
  String × Language × List String

/-- Register languages one after another. -/
def registerAll (registrations : List Registration) (registry : LanguageRegistry) :
    LanguageRegistry :=
  registrations.foldl (fun registry (name, language, exts) =>
    registry.registerLanguage name language exts) registry

/-- List all registered language names. -/
def supportedLanguages (registry : LanguageRegistry) : List String :=
  registry.languages.map Prod.fst

/-- The set of all registered file extensions. -/
def supportedExtensions (registry : LanguageRegistry) : List String :=
  registry.extensions.map Prod.fst

theorem registerAll_builtins (registrations : List Registration) :
  new.registerAll registrations
    = (⟨[], []⟩ : LanguageRegistry).registerAll (builtins ++ registrations)
  := by
  rw [registerAll, registerAll, List.foldl_append]
  rfl

theorem registerAll_concat (registrations : List Registration) (registration : Registration)
    (registry : LanguageRegistry) :
  registry.registerAll (registrations ++ [registration])
    = (registry.registerAll registrations).registerLanguage registration.1 registration.2.1
      registration.2.2
  := by
  rw [registerAll, List.foldl_append]
  rfl

/-- The language of an extension after a registration. -/
theorem lookup_extensions_registerLanguage (registry : LanguageRegistry) (name : String)
    (language : Language) (exts : List String) (ext : String) :
  (registry.registerLanguage name language exts).extensions.lookup ext
    = if ext ∈ exts then some name else registry.extensions.lookup ext
  := by
  have hfold : ∀ (exts : List String) (extensions : List (String × String)),
      (exts.foldl (fun extensions ext => SortedMap.insert ext name extensions)
          extensions).lookup ext
        = if ext ∈ exts then some name else extensions.lookup ext := by
    intro exts
    induction exts with
    | nil =>
        intro extensions
        rw [List.foldl_nil, if_neg List.not_mem_nil]
    | cons ext' exts ih =>
        intro extensions
        rw [List.foldl_cons, ih, SortedMap.lookup_insert]
        by_cases hmem : ext ∈ exts
        · rw [if_pos hmem, if_pos (List.mem_cons_of_mem _ hmem)]
        · rw [if_neg hmem]
          by_cases hsame : ext = ext'
          · rw [if_pos hsame, if_pos (List.mem_cons.mpr (Or.inl hsame))]
          · rw [if_neg hsame, if_neg]
            intro h
            rcases List.mem_cons.mp h with h | h
            · apply hsame h
            · apply hmem h
  apply hfold

/-! ### Runs -/

section Runs

variable (registrations : List Registration)

/-- The registry after registrations on an empty one. -/
abbrev ofRegistrations : LanguageRegistry :=
  (⟨[], []⟩ : LanguageRegistry).registerAll registrations

theorem getLanguage_ofRegistrations (name : String) :
  (ofRegistrations registrations).getLanguage name
    = (latest (fun registration => registration.1 = name) registrations).map (fun r => r.2.1)
  := by
  induction registrations using List.reverseRecOn with
  | nil => rfl
  | append_singleton registrations registration ih =>
      rw [ofRegistrations, registerAll_concat, latest_concat, getLanguage, registerLanguage,
        SortedMap.lookup_insert]
      by_cases hname : registration.1 = name
      · rw [if_pos hname, if_pos hname.symm, Option.map_some]
      · rw [if_neg hname, if_neg (fun h => hname h.symm), ← ih, getLanguage]

theorem lookup_extensions_ofRegistrations (ext : String) :
  (ofRegistrations registrations).extensions.lookup ext
    = (latest (fun registration => ext ∈ registration.2.2) registrations).map Prod.fst
  := by
  induction registrations using List.reverseRecOn with
  | nil => rfl
  | append_singleton registrations registration ih =>
      rw [ofRegistrations, registerAll_concat, latest_concat, lookup_extensions_registerLanguage]
      split
      · rfl
      · apply ih

/-- Both maps stay sorted. -/
theorem sorted_ofRegistrations :
  SortedMap.Sorted (ofRegistrations registrations).languages
    ∧ SortedMap.Sorted (ofRegistrations registrations).extensions
  := by
  induction registrations using List.reverseRecOn with
  | nil => exact ⟨SortedMap.sorted_nil, SortedMap.sorted_nil⟩
  | append_singleton registrations registration ih =>
      rw [ofRegistrations, registerAll_concat]
      constructor
      · apply SortedMap.sorted_insert _ _ ih.1
      · have hfold := SortedMap.sorted_foldl_insert
          (registration.2.2.map (fun ext => (ext, registration.1))) ih.2
        rw [List.foldl_map] at hfold
        apply hfold

end Runs

/-- A key of a map has a value. -/
theorem mem_keys_iff {β : Type} {key : String} {es : List (String × β)} :
  key ∈ es.map Prod.fst ↔ (es.lookup key).isSome
  := by
  rw [List.lookup_isSome_iff, List.mem_map]
  constructor
  · rintro ⟨entry, hentry, hkey⟩
    exact ⟨entry, hentry, beq_iff_eq.mpr hkey.symm⟩
  · rintro ⟨entry, hentry, hkey⟩
    exact ⟨entry, hentry, (beq_iff_eq.mp hkey).symm⟩

/-- After any registrations names and extensions are what the last registrations say, a language
that is detected has a grammar, and the supported names and extensions are listed in order, once
each. -/
theorem languages_latest (registrations : List Registration) :
  (∀ name, (new.registerAll registrations).getLanguage name
      = (latest (fun r : Registration => r.1 = name) (builtins ++ registrations)).map
        (fun r => r.2.1))
    ∧ (∀ path, (new.registerAll registrations).detectLanguage path
      = (latest (fun r : Registration => String.ofList (dottedEnd path) ∈ r.2.2)
        (builtins ++ registrations)).map Prod.fst)
    ∧ (∀ path language, (new.registerAll registrations).detectLanguage path = some language →
      ((new.registerAll registrations).getLanguage language).isSome)
    ∧ (new.registerAll registrations).supportedLanguages.Pairwise (· < ·)
    ∧ (∀ name, name ∈ (new.registerAll registrations).supportedLanguages
      ↔ ∃ r ∈ builtins ++ registrations, r.1 = name)
    ∧ (new.registerAll registrations).supportedExtensions.Pairwise (· < ·)
    ∧ ∀ ext, ext ∈ (new.registerAll registrations).supportedExtensions
      ↔ ∃ r ∈ builtins ++ registrations, ext ∈ r.2.2
  := by
  rw [registerAll_builtins]
  obtain ⟨hlanguages, hextensions⟩ := sorted_ofRegistrations (builtins ++ registrations)
  have hdetect : ∀ path, (ofRegistrations (builtins ++ registrations)).detectLanguage path
      = (latest (fun r : Registration => String.ofList (dottedEnd path) ∈ r.2.2)
        (builtins ++ registrations)).map Prod.fst := by
    intro path
    apply lookup_extensions_ofRegistrations
  refine ⟨getLanguage_ofRegistrations _, hdetect, ?_, hlanguages, ?_, hextensions, ?_⟩
  · intro path language hlanguage
    rw [hdetect] at hlanguage
    obtain ⟨r, hr, hname⟩ := Option.map_eq_some_iff.mp hlanguage
    rw [getLanguage_ofRegistrations, Option.isSome_map, latest_isSome]
    exact ⟨r, (of_latest hr).1, hname⟩
  · intro name
    have hget := getLanguage_ofRegistrations (builtins ++ registrations) name
    rw [getLanguage] at hget
    rw [supportedLanguages, mem_keys_iff, hget, Option.isSome_map, latest_isSome]
  · intro ext
    rw [supportedExtensions, mem_keys_iff, lookup_extensions_ofRegistrations, Option.isSome_map,
      latest_isSome]

end LanguageRegistry

end OrchestraRag
