import OrchestraRag.Index.Search
import OrchestraRag.Library.Paging

/-!
# Pages of search results

What `IndexReader::search` returns of a ranked list of hits.  It ranks `offset + limit` hits
before it filters by file type, and counts those, so its results are the page of the matching hits
and its total is their number exactly when the matching hits are the first ones
(`IndexReader.paged_iff`).
-/

namespace OrchestraRag

/-! ### The ranked hits -/

variable {F : Type}

/-- The document of a hit. -/
def Searcher.docOf (searcher : Searcher F) (hit : Hit F) : StoredDocument :=
  (searcher.doc hit.address).toOption.getD []

/-- The hits of one of the file types. -/
def Searcher.ofTypes (searcher : Searcher F) (fileTypes : List String) (hits : List (Hit F)) :
    List (Hit F) :=
  hits.filter (fun hit =>
    IndexReader.matchesType fileTypes (IndexReader.pathOf (searcher.docOf hit)))

/-- The searcher answers a query with the best of the ranked hits; each is a document of the
snapshot, and is ranked once. -/
structure Searcher.Ranks (searcher : Searcher F) (queryStr : String) (ranked : List (Hit F)) :
    Prop where
  query : ∃ query, searcher.parseQuery [.content, .symbols] queryStr = .ok query
    ∧ (∀ n, n ≠ 0 → searcher.search query n = .ok (ranked.take n.toNat))
    ∧ ∃ snippetHtml, searcher.snippets query .content = .ok snippetHtml
  documents : ∀ hit ∈ ranked, ∃ doc, searcher.doc hit.address = .ok doc
  once : (ranked.map Hit.address).Nodup

theorem Searcher.Ranks.nodup {searcher : Searcher F} {queryStr : String} {ranked : List (Hit F)}
    (h : searcher.Ranks queryStr ranked) :
  ranked.Nodup
  := List.Nodup.of_map Hit.address h.once

namespace IndexReader

section Pages

variable {build : Build} {searcher : Searcher F} {queryStr : String} {ranked : List (Hit F)}
  {limit offset : UInt64} {fileTypes : List String}

/-! ### The limit of the collector -/

theorem one_le_of_topDocsLimit {n : UInt64}
    (h : topDocsLimit build limit offset = .ok n) :
  1 ≤ n.toNat
  := by
  obtain ⟨m, -, hm⟩ := Outcome.bind_eq_ok.mp h
  rw [TopDocs.withLimit] at hm
  split at hm
  case isTrue => cases hm
  case isFalse hzero =>
      obtain rfl := Except.ok.inj hm
      apply Nat.one_le_iff_ne_zero.mpr
      intro hnat
      apply hzero (UInt64.toNat_inj.mp hnat)

theorem topDocsLimit_of_lt (hlimit : 1 ≤ offset.toNat + limit.toNat)
    (h : offset.toNat + limit.toNat < 2 ^ 64) :
  topDocsLimit build limit offset = .ok (offset + limit)
  := by
  have hsum : (offset + limit).toNat = offset.toNat + limit.toNat := by
    rw [UInt64.toNat_add, Nat.mod_eq_of_lt h]
  have hzero : offset + limit ≠ 0 := by
    intro hzero
    rw [hzero, UInt64.toNat_zero] at hsum
    omega
  rw [topDocsLimit, Build.add_of_lt h]
  apply if_neg hzero

theorem topDocsLimit_debug_of_le (h : 2 ^ 64 ≤ offset.toNat + limit.toNat) :
  topDocsLimit .debug limit offset = .error .panicked
  := by
  rw [topDocsLimit, Build.add_debug_of_le h]
  rfl

theorem topDocsLimit_release :
  topDocsLimit .release limit offset = TopDocs.withLimit (offset + limit)
  := by
  rw [topDocsLimit, Build.add_release]
  rfl

/-! ### The hits that are kept -/

theorem keptHits_eq {topDocs : List (Hit F)}
    (h : ∀ hit ∈ topDocs, ∃ doc, searcher.doc hit.address = .ok doc) :
  keptHits searcher offset fileTypes topDocs
    = .ok ((searcher.ofTypes fileTypes (topDocs.drop offset.toNat)).map
      (fun hit => (hit, searcher.docOf hit)))
  := by
  have hskip := Outcome.filterMapM_skip (fun (hit : Hit F) => do
    let doc ← Outcome.ofResult ((searcher.doc hit.address).mapError
      ("failed to initialize Tantivy index: " ++ ·))
    if matchesType fileTypes (pathOf doc) then pure (some (hit, doc)) else pure none)
    offset.toNat topDocs 0
  apply hskip.trans
  rw [Nat.sub_zero]
  apply Outcome.filterMapM_eq
  intro hit hmem
  obtain ⟨doc, hdoc⟩ := h hit (List.mem_of_mem_drop hmem)
  have hdocOf : searcher.docOf hit = doc := by
    rw [Searcher.docOf, hdoc]
    rfl
  have hloaded : Outcome.ofResult ((searcher.doc hit.address).mapError
      ("failed to initialize Tantivy index: " ++ ·)) = .ok doc := by
    rw [hdoc]
    rfl
  rw [hloaded, hdocOf]
  change (if _ then _ else _) = _
  split
  · rfl
  · rfl

/-! ### Pages -/

/-- The search returns the page of the hits of the file types, and their number. -/
def Paged (build : Build) (searcher : Searcher F) (queryStr : String) (ranked : List (Hit F))
    (limit offset : UInt64) (fileTypes : List String) : Prop :=
  let found := searcher.ofTypes fileTypes ranked
  let entries := (Paging.page offset.toNat limit.toNat found).map
    (fun hit => (hit, searcher.docOf hit))
  ∃ snippetHtml,
    searchHits build searcher queryStr limit offset fileTypes
        = .ok (entries, found.length, snippetHtml)
      ∧ search build searcher queryStr limit offset fileTypes
        = .ok (entries.map (resultOf snippetHtml), found.length)

theorem searchHits_eq (h : searcher.Ranks queryStr ranked) {n : UInt64}
    (hn : topDocsLimit build limit offset = .ok n) :
  ∃ snippetHtml, searchHits build searcher queryStr limit offset fileTypes
    = .ok ((searcher.ofTypes fileTypes ((ranked.take n.toNat).drop offset.toNat)).map
        (fun hit => (hit, searcher.docOf hit)),
      (ranked.take n.toNat).length, snippetHtml)
  := by
  obtain ⟨query, hquery, hsearch, snippetHtml, hsnippets⟩ := h.query
  have hpos : n ≠ 0 := by
    rintro rfl
    apply absurd (one_le_of_topDocsLimit hn)
    decide
  have hparsed : Outcome.ofResult ((searcher.parseQuery [.content, .symbols] queryStr).mapError
      ("search query error: failed to parse query: " ++ ·)) = .ok query := by
    rw [hquery]
    rfl
  have hranked : Outcome.ofResult ((searcher.search query n).mapError
      ("failed to initialize Tantivy index: " ++ ·)) = .ok (ranked.take n.toNat) := by
    rw [hsearch n hpos]
    rfl
  have hcreated : Outcome.ofResult ((searcher.snippets query .content).mapError
      ("failed to initialize Tantivy index: " ++ ·)) = .ok snippetHtml := by
    rw [hsnippets]
    rfl
  use snippetHtml
  rw [searchHits, hparsed]
  apply Outcome.bind_eq_ok.mpr
  use query, rfl
  apply Outcome.bind_eq_ok.mpr
  use n, hn
  apply Outcome.bind_eq_ok.mpr
  use ranked.take n.toNat, hranked
  apply Outcome.bind_eq_ok.mpr
  use snippetHtml, hcreated
  apply Outcome.bind_eq_ok.mpr
  refine ⟨_, keptHits_eq (fun hit hmem => h.documents hit (List.mem_of_mem_take hmem)), rfl⟩

/-- A search whose limit is not accepted panics. -/
theorem searchHits_panicked (h : searcher.Ranks queryStr ranked)
    (hn : topDocsLimit build limit offset = .error .panicked) :
  searchHits build searcher queryStr limit offset fileTypes = .error .panicked
  := by
  obtain ⟨query, hquery, -⟩ := h.query
  rw [searchHits, hquery, hn]
  rfl

/-- What is returned is the page exactly when the skipped and cut hits that have one of the file
types are, and all that were cut are as many. -/
theorem paged_iff_of_limit (h : searcher.Ranks queryStr ranked) {n : UInt64}
    (hn : topDocsLimit build limit offset = .ok n) :
  Paged build searcher queryStr ranked limit offset fileTypes
    ↔ searcher.ofTypes fileTypes ((ranked.take n.toNat).drop offset.toNat)
        = Paging.page offset.toNat limit.toNat (searcher.ofTypes fileTypes ranked)
      ∧ (ranked.take n.toNat).length = (searcher.ofTypes fileTypes ranked).length
  := by
  obtain ⟨snippetHtml, hhits⟩ := @searchHits_eq F build searcher queryStr ranked limit offset
    fileTypes h n hn
  constructor
  · rintro ⟨snippetHtml', hentries, -⟩
    rw [hhits] at hentries
    obtain ⟨hentries, hrest⟩ := Prod.mk.inj (Except.ok.inj hentries)
    refine ⟨?_, (Prod.mk.inj hrest).1⟩
    apply List.map_injective_iff.mpr _ hentries
    intro hit hit' hsame
    apply (Prod.mk.inj hsame).1
  · rintro ⟨hpage, hlength⟩
    rw [hpage, hlength] at hhits
    use snippetHtml, hhits
    rw [search, hhits]
    rfl

theorem not_paged_of_panicked (h : searcher.Ranks queryStr ranked)
    (hn : topDocsLimit build limit offset = .error .panicked) :
  ¬ Paged build searcher queryStr ranked limit offset fileTypes
  := by
  rintro ⟨snippetHtml, hhits, -⟩
  rw [searchHits_panicked h hn] at hhits
  cases hhits

theorem paged_iff_of_lt (h : searcher.Ranks queryStr ranked) (hlimit : 1 ≤ limit.toNat)
    (hlt : offset.toNat + limit.toNat < 2 ^ 64) :
  Paged build searcher queryStr ranked limit offset fileTypes
    ↔ searcher.ofTypes fileTypes ranked = ranked.take (offset.toNat + limit.toNat)
  := by
  rw [paged_iff_of_limit h (topDocsLimit_of_lt (by omega) hlt), UInt64.toNat_add,
    Nat.mod_eq_of_lt hlt]
  apply Paging.filter_page_iff h.nodup hlimit

/-- When the sum wraps all hits that are ranked are skipped. -/
theorem paged_release_iff_of_le (h : searcher.Ranks queryStr ranked) (hlimit : 1 ≤ limit.toNat)
    (hle : 2 ^ 64 ≤ offset.toNat + limit.toNat) :
  Paged .release searcher queryStr ranked limit offset fileTypes
    ↔ 2 ^ 64 < offset.toNat + limit.toNat
      ∧ (searcher.ofTypes fileTypes ranked).length
        = min (offset.toNat + limit.toNat - 2 ^ 64) ranked.length
  := by
  have hoffset := offset.toNat_lt
  have hbound := limit.toNat_lt
  have hsum : (offset + limit).toNat = offset.toNat + limit.toNat - 2 ^ 64 := by
    rw [UInt64.toNat_add]
    omega
  by_cases hzero : offset + limit = 0
  · rw [hzero, UInt64.toNat_zero] at hsum
    apply iff_of_false
    · apply not_paged_of_panicked h
      rw [topDocsLimit_release]
      apply if_pos hzero
    · rintro ⟨hlt, -⟩
      omega
  · have hn : topDocsLimit .release limit offset = .ok (offset + limit) := by
      rw [topDocsLimit_release]
      apply if_neg hzero
    have hpos : (offset + limit).toNat ≠ 0 := by
      intro hnat
      apply hzero (UInt64.toNat_inj.mp hnat)
    rw [paged_iff_of_limit h hn, List.length_take, hsum]
    have hskipped : (ranked.take (offset.toNat + limit.toNat - 2 ^ 64)).drop offset.toNat = [] := by
      apply List.drop_of_length_le
      rw [List.length_take]
      omega
    rw [hskipped]
    constructor
    · rintro ⟨-, hlength⟩
      use by omega
      apply hlength.symm
    · rintro ⟨-, hlength⟩
      refine ⟨?_, hlength.symm⟩
      have hpast : (searcher.ofTypes fileTypes ranked).drop offset.toNat = [] := by
        apply List.drop_of_length_le
        omega
      rw [Paging.page, hpast, List.take_nil]
      rfl

/-- A search pages as it should exactly when the hits of the file types are the first
`offset + limit` ones.  In a release build, where the sum may wrap, it also does when it ranks as
many hits as there are of the file types, which are then all skipped. -/
theorem paged_iff (h : searcher.Ranks queryStr ranked) (hlimit : 1 ≤ limit.toNat) :
  (Paged .debug searcher queryStr ranked limit offset fileTypes
    ↔ offset.toNat + limit.toNat < 2 ^ 64
      ∧ searcher.ofTypes fileTypes ranked = ranked.take (offset.toNat + limit.toNat))
  ∧ (Paged .release searcher queryStr ranked limit offset fileTypes
    ↔ (offset.toNat + limit.toNat < 2 ^ 64
        ∧ searcher.ofTypes fileTypes ranked = ranked.take (offset.toNat + limit.toNat))
      ∨ (2 ^ 64 < offset.toNat + limit.toNat
        ∧ (searcher.ofTypes fileTypes ranked).length
          = min (offset.toNat + limit.toNat - 2 ^ 64) ranked.length))
  := by
  rcases Nat.lt_or_ge (offset.toNat + limit.toNat) (2 ^ 64) with hlt | hle
  · rw [paged_iff_of_lt h hlimit hlt, paged_iff_of_lt h hlimit hlt]
    constructor
    · rw [and_iff_right hlt]
    · rw [and_iff_right hlt]
      constructor
      · apply Or.inl
      · rintro (hfirst | ⟨hgt, -⟩)
        · apply hfirst
        · omega
  · rw [paged_release_iff_of_le h hlimit hle]
    constructor
    · apply iff_of_false
      · apply not_paged_of_panicked h (topDocsLimit_debug_of_le hle)
      · rintro ⟨hlt, -⟩
        omega
    · constructor
      · apply Or.inr
      · rintro (⟨hlt, -⟩ | hwraps)
        · omega
        · apply hwraps

end Pages

/-! ### A Python file that hides a Rust file -/

/-- Two documents that match, the Python file better. -/
def twoFiles : List (Hit F32) :=
  [⟨⟨0x40000000⟩, ⟨0, 0⟩⟩, ⟨⟨0x3f800000⟩, ⟨0, 1⟩⟩]

/-- A snapshot with these documents. -/
def twoFilesSearcher : Searcher F32 where
  Query := Unit
  parseQuery _ _ := .ok ()
  search _ n := .ok (twoFiles.take n.toNat)
  snippets _ _ := .ok (fun _ => "")
  doc address :=
    if address = ⟨0, 0⟩ then .ok [(.path, "app.py")]
    else if address = ⟨0, 1⟩ then .ok [(.path, "main.rs")]
    else .error "no such document"

theorem ranks_twoFiles :
  twoFilesSearcher.Ranks "main" twoFiles
  := by
  constructor
  · exact ⟨(), rfl, fun _ _ => rfl, _, rfl⟩
  · intro hit hmem
    rcases List.mem_cons.mp hmem with rfl | hmem
    · exact ⟨_, rfl⟩
    · obtain rfl := List.mem_singleton.mp hmem
      exact ⟨_, rfl⟩
  · decide

/-- One hit is looked for, and the best one is a Python file. -/
theorem paged_twoFiles :
  Paged .release twoFilesSearcher "main" twoFiles 1 0 ["py"]
  := (paged_iff ranks_twoFiles (by decide)).2.mpr (Or.inl ⟨by decide, rfl⟩)

/-- Looking for one Rust file finds none, although one matches. -/
theorem not_paged_twoFiles :
  ¬ Paged .debug twoFilesSearcher "main" twoFiles 1 0 ["rs"]
    ∧ ¬ Paged .release twoFilesSearcher "main" twoFiles 1 0 ["rs"]
  := by
  have hfound : twoFilesSearcher.ofTypes ["rs"] twoFiles ≠ twoFiles.take (0 + 1) := by
    decide
  constructor
  · rw [paged_iff_of_lt ranks_twoFiles (by decide) (by decide)]
    apply hfound
  · rw [paged_iff_of_lt ranks_twoFiles (by decide) (by decide)]
    apply hfound

end IndexReader

end OrchestraRag
