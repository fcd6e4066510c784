import OrchestraRag.Index.Paging

/-!
# Limits and offsets

The four tools that take a `limit` pass it on as it comes: `search` adds it to the offset,
`search_symbols` makes a collector of it, `search_memory` multiplies it by 200, and
`list_memories` casts it to `i64`.  Each is safe on the numbers of `limits_safe_iff` and no
others.
-/

namespace OrchestraRag

open Sql

/-! ### Search -/

section Search

variable {F : Type} [SingleFloat F] {build : Build} {searcher : Searcher F} {args : Json}
  {limit offset : UInt64}

/-- The sum of `search` is exact, the collector takes it, and no call panics.  A `Searcher` does not
panic itself: how much a collector can allocate is left out. -/
def SearchSafe (F : Type) [SingleFloat F] (args : Json) : Prop :=
  ∀ build : Build,
    (∃ n, IndexReader.topDocsLimit build (optionalU64 args "limit" 10)
          (optionalU64 args "offset" 0) = .ok n
      ∧ n.toNat = (optionalU64 args "offset" 0).toNat + (optionalU64 args "limit" 10).toNat)
    ∧ ∀ searcher : Searcher F, ¬ (handleSearch build searcher args).Panicked

/-- The collector of `search_symbols` takes the limit, and no call panics, but for what the
collector cannot allocate. -/
def SearchSymbolsSafe (F : Type) [SingleFloat F] (args : Json) : Prop :=
  TopDocs.withLimit (optionalU64 args "limit" 10) = .ok (optionalU64 args "limit" 10)
    ∧ ∀ searcher : Searcher F, ¬ (handleSearchSymbols searcher args).Panicked

theorem not_panicked_requiredText (args : Json) (field : String) :
  ¬ (requiredText args field).Panicked
  := by
  rw [requiredText]
  split
  · rintro ⟨⟩
  · rintro ⟨⟩

/-- The collector has its limit exactly when it is the sum and not zero. -/
theorem topDocsLimit_iff :
  (∀ build : Build, ∃ n, IndexReader.topDocsLimit build limit offset = .ok n
      ∧ n.toNat = offset.toNat + limit.toNat)
    ↔ 1 ≤ offset.toNat + limit.toNat ∧ offset.toNat + limit.toNat < 2 ^ 64
  := by
  constructor
  · intro h
    obtain ⟨n, hn, hsum⟩ := h .release
    rw [← hsum]
    use IndexReader.one_le_of_topDocsLimit hn, n.toNat_lt
  · rintro ⟨hpos, hlt⟩ build
    use offset + limit, IndexReader.topDocsLimit_of_lt hpos hlt
    rw [UInt64.toNat_add, Nat.mod_eq_of_lt hlt]

/-- A search panics only where its collector does. -/
theorem not_panicked_handleSearch
    (h : ∃ n, IndexReader.topDocsLimit build (optionalU64 args "limit" 10)
      (optionalU64 args "offset" 0) = .ok n) :
  ¬ (handleSearch build searcher args).Panicked
  := by
  obtain ⟨n, hn⟩ := h
  have hhits (query : String) : ¬ (IndexReader.searchHits build searcher query
      (optionalU64 args "limit" 10) (optionalU64 args "offset" 0)
      (textArray args "file_types")).Panicked := by
    apply Outcome.not_panicked_bind (Outcome.not_panicked_ofResult _)
    intro parsed _
    rw [hn]
    apply Outcome.not_panicked_bind (Outcome.not_panicked_ofResult _)
    intro topDocs _
    apply Outcome.not_panicked_bind (Outcome.not_panicked_ofResult _)
    intro snippetHtml _
    apply Outcome.not_panicked_bind
    · apply Outcome.not_panicked_filterMapM
      rintro ⟨hit, i⟩ _
      dsimp only
      split
      · rintro ⟨⟩
      · apply Outcome.not_panicked_bind (Outcome.not_panicked_ofResult _)
        intro doc _
        split
        · rintro ⟨⟩
        · rintro ⟨⟩
    · rintro kept _ ⟨⟩
  apply Outcome.not_panicked_bind (not_panicked_requiredText args "query")
  intro query _
  apply Outcome.not_panicked_bind
  · apply Outcome.not_panicked_bind (hhits query)
    rintro ⟨kept, total, snippetHtml⟩ _ ⟨⟩
  · rintro ⟨results, total⟩ _ ⟨⟩

theorem searchSafe_iff :
  SearchSafe F args
    ↔ 1 ≤ (optionalU64 args "offset" 0).toNat + (optionalU64 args "limit" 10).toNat
      ∧ (optionalU64 args "offset" 0).toNat + (optionalU64 args "limit" 10).toNat < 2 ^ 64
  := by
  rw [← topDocsLimit_iff]
  constructor
  · intro h build
    apply (h build).1
  · intro h build
    obtain ⟨n, hn, hsum⟩ := h build
    use ⟨n, hn, hsum⟩
    intro searcher
    apply not_panicked_handleSearch ⟨n, hn⟩

theorem searchSymbolsSafe_iff :
  SearchSymbolsSafe F args ↔ 1 ≤ (optionalU64 args "limit" 10).toNat
  := by
  rw [SearchSymbolsSafe, TopDocs.withLimit]
  by_cases hzero : optionalU64 args "limit" 10 = 0
  · rw [if_pos hzero, hzero]
    apply iff_of_false
    · rintro ⟨⟨⟩, -⟩
    · decide
  · rw [if_neg hzero]
    apply iff_of_true
    · use rfl
      intro searcher
      apply Outcome.not_panicked_bind (not_panicked_requiredText args "query")
      intro query _
      apply Outcome.not_panicked_bind (Outcome.not_panicked_ofResult _)
      intro parsed _
      rw [TopDocs.withLimit, if_neg hzero]
      apply Outcome.not_panicked_bind (Outcome.not_panicked_ofResult _)
      intro topDocs _
      apply Outcome.not_panicked_bind
      · apply Outcome.not_panicked_mapM
        intro hit _
        apply Outcome.not_panicked_bind (Outcome.not_panicked_ofResult _)
        rintro doc _ ⟨⟩
      · rintro results _ ⟨⟩
    · apply Nat.one_le_iff_ne_zero.mpr
      intro hnat
      apply hzero (UInt64.toNat_inj.mp hnat)

end Search

/-! ### Memories -/

section SearchMemory

variable {F : Type} [SingleFloat F] (sorting : SortBy) (orders : Orders F) (codec : TagCodec)

/-- The budget that `search_memory` makes from its limit. -/
def memoryBudget (build : Build) (args : Json) : Outcome String UInt64 :=
  build.mul (optionalU64 args "limit" 10) 200

/-- `search_memory` with a given budget. -/
def searchWithBudget (budget : ℕ) (args : Json) : MemoryM Json := do
  let project ← requiredStr args "project"
  let query ← requiredStr args "query"
  let (results, _) ← (HybridSearch.getContext sorting orders codec project query (vectorOf F args)
    budget (optionalStr args "category")).named "search_memory failed: "
  pure (.object [("results", .array
    ((results.take (optionalU64 args "limit" 10).toNat).map ContextResult.toJson))])

/-- In a release build the tool searches with the product as it wraps. -/
theorem searchMemory_eq (args : Json) :
  ∃ budget, memoryBudget .release args = .ok budget
    ∧ MemoryTools.searchMemory sorting orders codec args
      = searchWithBudget sorting orders codec budget.toNat args
  := ⟨_, Build.mul_release, rfl⟩

variable (F) in
/-- The product of `search_memory` is exact, and the tool searches with it. -/
def SearchMemorySafe (args : Json) : Prop :=
  let budget := (optionalU64 args "limit" 10).toNat * 200
  (∀ build : Build, ∃ product, memoryBudget build args = .ok product ∧ product.toNat = budget)
    ∧ ∀ (sorting : SortBy) (orders : Orders F) (codec : TagCodec),
      MemoryTools.searchMemory sorting orders codec args
        = searchWithBudget sorting orders codec budget args

theorem searchMemorySafe_iff {args : Json} :
  SearchMemorySafe F args ↔ (optionalU64 args "limit" 10).toNat * 200 < 2 ^ 64
  := by
  have hproduct : (∀ build : Build, ∃ product, memoryBudget build args = .ok product
      ∧ product.toNat = (optionalU64 args "limit" 10).toNat * 200)
      ↔ (optionalU64 args "limit" 10).toNat * 200 < 2 ^ 64 := Build.mul_iff
  rw [← hproduct]
  constructor
  · intro hsafe
    apply hsafe.1
  · intro hexact
    use hexact
    intro sorting orders codec
    obtain ⟨product, hproduct, hbudget⟩ := hexact .release
    obtain ⟨budget, hrelease, hsearch⟩ := searchMemory_eq sorting orders codec args
    obtain rfl := Except.ok.inj (hproduct.symm.trans hrelease)
    rw [hsearch, hbudget]

end SearchMemory

/-- The answer that shows a page of memories. -/
def listAnswer (codec : TagCodec) (rows : List MemoryRow) : Json :=
  .object (SortedMap.collect
    [("memories", .array ((rows.map (memoryFromRow codec)).map Memory.toJson)),
      ("count", countToJson rows.length)])

/-- The casts of `list_memories` keep their numbers, and it answers with the page of all memories
of the project. -/
def ListMemoriesSafe (F : Type) (args : Json) : Prop :=
  let limit := (optionalU64 args "limit" 50).toNat
  let offset := (optionalU64 args "offset" 0).toNat
  asI64 limit = limit ∧ asI64 offset = offset
    ∧ ∀ (orders : Orders F) (codec : TagCodec) (s : MemoryState) (project : String),
      s.db.Reliable → (args.index "project").asStr = some project →
      MemoryM.Reads s (MemoryTools.listMemories orders codec args)
        (.ok (listAnswer codec (Paging.page offset limit (orders.memories.orderBy
          MemoryTables.byCreatedAt
          (s.db.tables.projectMemories project (optionalStr args "category"))))))

/-- The cast to `i64` keeps a number exactly when it is below `2 ^ 63`. -/
theorem asI64_eq_iff (n : UInt64) :
  asI64 n.toNat = n.toNat ↔ n.toNat < 2 ^ 63
  := by
  have hbound := n.toNat_lt
  rw [asI64_eq]
  split
  · omega
  · omega

/-- With casts that keep their numbers a page of memories is one. -/
theorem pageRows_eq {scan : Scan MemoryRow} {project : String} {category : Option String}
    {limit offset : ℕ} {tables : MemoryTables} (hlimit : asI64 limit = limit)
    (hoffset : asI64 offset = offset) :
  tables.pageRows scan project category limit offset
    = Paging.page offset limit
      (scan.orderBy MemoryTables.byCreatedAt (tables.projectMemories project category))
  := by
  rw [MemoryTables.pageRows, hlimit, hoffset, Sql.limit, Sql.offset, if_neg (by omega),
    Int.toNat_natCast, Int.toNat_natCast, Paging.page]

section Memories

variable {F : Type} {args : Json}

theorem listMemoriesSafe_iff :
  ListMemoriesSafe F args
    ↔ (optionalU64 args "limit" 50).toNat < 2 ^ 63
      ∧ (optionalU64 args "offset" 0).toNat < 2 ^ 63
  := by
  rw [← asI64_eq_iff, ← asI64_eq_iff]
  constructor
  · rintro ⟨hlimit, hoffset, -⟩
    exact ⟨hlimit, hoffset⟩
  · rintro ⟨hlimit, hoffset⟩
    refine ⟨hlimit, hoffset, ?_⟩
    intro orders codec s project hs hproject
    have hfield := @reads_requiredStr s args "project"
    rw [hproject] at hfield
    have hpage := (MemoryStorage.reads_listMemoriesPaginated orders.memories codec hs project
      (optionalStr args "category") (optionalU64 args "limit" 50).toNat
      (optionalU64 args "offset" 0).toNat).named "list_memories failed: "
    rw [pageRows_eq hlimit hoffset] at hpage
    apply hfield.bind
    apply hpage.bind
    rw [listAnswer, ← List.length_map (memoryFromRow codec), ← List.length_map Memory.toJson]
    apply MemoryM.reads_pure

end Memories

/-- On which numbers each of the four tools is safe. -/
theorem limits_safe_iff (F : Type) [SingleFloat F] (args : Json) :
  (SearchSafe F args
    ↔ 1 ≤ (optionalU64 args "offset" 0).toNat + (optionalU64 args "limit" 10).toNat
      ∧ (optionalU64 args "offset" 0).toNat + (optionalU64 args "limit" 10).toNat < 2 ^ 64)
  ∧ (SearchSymbolsSafe F args ↔ 1 ≤ (optionalU64 args "limit" 10).toNat)
  ∧ (SearchMemorySafe F args ↔ (optionalU64 args "limit" 10).toNat * 200 < 2 ^ 64)
  ∧ (ListMemoriesSafe F args
    ↔ (optionalU64 args "limit" 50).toNat < 2 ^ 63
      ∧ (optionalU64 args "offset" 0).toNat < 2 ^ 63)
  := ⟨searchSafe_iff, searchSymbolsSafe_iff, searchMemorySafe_iff, listMemoriesSafe_iff⟩

/-- A search with a limit and an offset. -/
def limitArgs (limit offset : UInt64) : Json :=
  .object [("limit", .number (.posInt limit)), ("offset", .number (.posInt offset))]

/-- With limit 0, with an offset of `2 ^ 64 - 1`, with a limit over `2 ^ 64 / 200` and with an
offset of `2 ^ 63` the tools are not safe. -/
theorem not_limits_safe :
  ¬ SearchSafe F32 (limitArgs 0 0) ∧ ¬ SearchSafe F32 (limitArgs 1 18446744073709551615)
    ∧ ¬ SearchSymbolsSafe F32 (limitArgs 0 0)
    ∧ ¬ SearchMemorySafe F32 (limitArgs 92233720368547759 0)
    ∧ ¬ ListMemoriesSafe F32 (limitArgs 1 9223372036854775808)
  := by
  refine ⟨?_, ?_, ?_, ?_, ?_⟩
  · rw [searchSafe_iff]
    decide
  · rw [searchSafe_iff]
    decide
  · rw [searchSymbolsSafe_iff]
    decide
  · rw [searchMemorySafe_iff]
    decide
  · rw [listMemoriesSafe_iff]
    decide

end OrchestraRag
