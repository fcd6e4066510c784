import OrchestraRag.Memory.Isolation
import OrchestraRag.Memory.Ranking
import OrchestraRag.Memory.Runs

/-!
# The category filter

A hybrid search hands its category to the keyword search only.  What it returns is all in the
category if every memory that only its embedding finds is; and only then, when the token budget
holds all that is found (`context_category_iff`).
-/

namespace OrchestraRag

open Sql

/-- Entries with distinct keys, each of the size of another one with its key, have no more of it
than these. -/
theorem sum_le_sum_of_keys {ρ ρ' κ : Type} {key : ρ → κ} {key' : ρ' → κ} {size : ρ → ℕ}
    {size' : ρ' → ℕ} {entries : List ρ} {entries' : List ρ'} (hnodup : (entries.map key).Nodup)
    (h : ∀ r ∈ entries, ∃ r' ∈ entries', key' r' = key r ∧ size' r' = size r) :
  (entries.map size).sum ≤ (entries'.map size').sum
  := by
  induction entries generalizing entries' with
  | nil => apply Nat.zero_le
  | cons r entries ih =>
      rw [List.map_cons, List.nodup_cons] at hnodup
      obtain ⟨r', hr', hkey, hsize⟩ := h r List.mem_cons_self
      obtain ⟨before, after, rfl⟩ := List.append_of_mem hr'
      have hrest : (entries.map size).sum ≤ ((before ++ after).map size').sum := by
        apply ih hnodup.2
        intro q hq
        obtain ⟨q', hq', hkey', hsize'⟩ := h q (List.mem_cons_of_mem _ hq)
        refine ⟨q', ?_, hkey', hsize'⟩
        rcases List.mem_append.mp hq' with hq' | hq'
        · apply List.mem_append_left _ hq'
        · rcases List.mem_cons.mp hq' with rfl | hq'
          · apply absurd _ hnodup.1
            rw [← hkey, hkey']
            apply List.mem_map_of_mem hq
          · apply List.mem_append_right _ hq'
      simp only [List.map_append, List.map_cons, List.sum_append, List.sum_cons] at hrest ⊢
      omega

section Filter

variable {F : Type} [SingleFloat F] (sorting : SortBy) (orders : Orders F) (codec : TagCodec)

namespace MemoryTables

/-- The ids of the memories whose embeddings a search finds. -/
def vectorIds (project : String) (vector : Option (List F)) (limit : ℕ) (tables : MemoryTables) :
    List String :=
  match vector with
  | none => []
  | some queryVec =>
      ((tables.similarEntities sorting orders.embeddings project queryVec "default" limit).filter
        (fun e => e.1 = "memory")).map (fun e => e.2.1)

/-- A memory of the id that the embeddings of the project find and the keyword search, which
finds `rows`, does not. -/
def FoundByVector (project : String) (vector : Option (List F)) (limit : ℕ) (tables : MemoryTables)
    (rows : List MemoryRow) (id : String) (row : MemoryRow) : Prop :=
  id ∉ rows.map MemoryRow.id ∧ tables.memoryRow orders.memories id = some row
    ∧ id ∈ tables.vectorIds sorting orders project vector limit

/-- The memories that only their embeddings find are in the category. -/
def KeepsCategory (project query : String) (vector : Option (List F)) (limit : ℕ)
    (category : String) (tables : MemoryTables) : Prop :=
  ∀ rows id row,
    tables.keywordRows orders.memories project query (some category) limit = .ok rows →
    tables.FoundByVector sorting orders project vector limit rows id row →
    row.category = category

/-- The tokens of the memories that the keywords, by `rows`, or the embeddings find. -/
def foundTokens (project : String) (vector : Option (List F)) (limit : ℕ) (tables : MemoryTables)
    (rows : List MemoryRow) : ℕ :=
  ((tables.memories.filter (fun row => row.id ∈ rows.map MemoryRow.id
    ∨ row.id ∈ tables.vectorIds sorting orders project vector limit)).map
    (fun row => estimateTokens row.content)).sum

/-- The budget holds all memories that are found. -/
def HoldsFound (project query : String) (vector : Option (List F)) (budget : ℕ)
    (category : String) (tables : MemoryTables) : Prop :=
  ∀ rows, tables.keywordRows orders.memories project query (some category) (max budget 20)
      = .ok rows →
    tables.foundTokens sorting orders project vector (max budget 20) rows ≤ budget

variable {sorting orders codec} {project query category : String} {vector : Option (List F)}
  {budget limit : ℕ} {tables : MemoryTables} {rows : List MemoryRow}

theorem mem_vectorIds {id : String} :
  id ∈ tables.vectorIds sorting orders project vector limit
    ↔ ∃ queryVec similarity, vector = some queryVec ∧ ("memory", id, similarity)
      ∈ tables.similarEntities sorting orders.embeddings project queryVec "default" limit
  := by
  cases vector with
  | none => simp [vectorIds]
  | some queryVec =>
      rw [vectorIds, List.mem_map]
      constructor
      · rintro ⟨⟨entityType, entityId, similarity⟩, he, rfl⟩
        obtain ⟨he, htype⟩ := List.mem_filter.mp he
        obtain rfl : entityType = "memory" := of_decide_eq_true htype
        exact ⟨queryVec, similarity, rfl, he⟩
      · rintro ⟨queryVec', similarity, hsome, he⟩
        obtain rfl := Option.some.inj hsome
        exact ⟨_, List.mem_filter.mpr ⟨he, decide_eq_true rfl⟩, rfl⟩

/-- There are no more tokens than those of all memories. -/
theorem foundTokens_le :
  tables.foundTokens sorting orders project vector limit rows
    ≤ (tables.memories.map (fun row => estimateTokens row.content)).sum
  := by
  apply (List.filter_sublist.map _).sum_le_sum
  intro _ _
  apply Nat.zero_le

omit [SingleFloat F] in
theorem category_of_mem_keywordRows
    (h : tables.keywordRows orders.memories project query (some category) limit = .ok rows)
    {row : MemoryRow} (hrow : row ∈ rows) :
  row.category = category
  := by
  have hfound := mem_of_mem_keywordRows h hrow
  rw [projectMemories_some] at hfound
  apply of_decide_eq_true (List.mem_filter.mp hfound).2

omit [SingleFloat F] in
theorem ids_memoryFromRow (rows : List MemoryRow) :
  (rows.map (memoryFromRow codec)).map Memory.id = rows.map MemoryRow.id
  := List.map_map

/-- An entry of the map of results has the category, or only its embedding finds it. -/
theorem category_of_mem_resultMap
    (hrows : tables.keywordRows orders.memories project query (some category) limit = .ok rows)
    {r : ContextResult F}
    (h : r ∈ tables.resultMap sorting orders codec project vector limit rows) :
  (r.category = category ∧ r.id ∈ rows.map MemoryRow.id)
    ∨ ∃ row, tables.FoundByVector sorting orders project vector limit rows r.id row
      ∧ row.category = r.category
  := by
  have hkeyword : ∀ r₀ ∈ (ContextResult.ofKeywords (rows.map (memoryFromRow codec)) :
      List (ContextResult F)), r₀.category = category ∧ r₀.id ∈ rows.map MemoryRow.id := by
    intro r₀ hr₀
    obtain ⟨mem, hmem, hid, -, hcategory⟩ := ContextResult.mem_ofKeywords hr₀
    obtain ⟨row, hrow, rfl⟩ := List.mem_map.mp hmem
    rw [← hid, ← hcategory]
    exact ⟨category_of_mem_keywordRows hrows hrow, List.mem_map_of_mem hrow⟩
  cases vector with
  | none => apply Or.inl (hkeyword r h)
  | some queryVec =>
      rcases ContextResult.mem_mergeVectors h with ⟨r₀, hr₀, hid, hcategory⟩ | ⟨hid, hlookup⟩
      · rw [← hid, ← hcategory]
        apply Or.inl (hkeyword r₀ hr₀)
      · rw [ContextResult.mem_ids_ofKeywords, ids_memoryFromRow] at hid
        obtain ⟨similarity, mem, he, hfind, hcategory⟩ := hlookup
        obtain ⟨row, hrow, rfl⟩ := Option.map_eq_some_iff.mp (Except.ok.inj hfind)
        apply Or.inr
        use row
        exact ⟨⟨hid, hrow, mem_vectorIds.mpr ⟨queryVec, similarity, rfl, he⟩⟩, hcategory⟩

variable (codec) in
/-- A memory that only its embedding finds has an entry in the map of results. -/
theorem exists_mem_resultMap
    (hrows : tables.keywordRows orders.memories project query (some category) limit = .ok rows)
    {id : String} {row : MemoryRow}
    (h : tables.FoundByVector sorting orders project vector limit rows id row) :
  ∃ r ∈ tables.resultMap sorting orders codec project vector limit rows,
    r.category = row.category
  := by
  obtain ⟨hid, hrow, hvector⟩ := h
  obtain ⟨queryVec, similarity, rfl, he⟩ := mem_vectorIds.mp hvector
  have hmerged : id ∈ ContextResult.ids
      (tables.resultMap sorting orders codec project (some queryVec) limit rows) := by
    apply ContextResult.mem_ids_mergeVectors he
    rw [hrow]
    rfl
  obtain ⟨r, hr, rfl⟩ := ContextResult.mem_ids.mp hmerged
  use r, hr
  rcases category_of_mem_resultMap hrows hr with ⟨-, hkeyword⟩ | ⟨row', hfound, hcategory⟩
  · apply absurd hkeyword hid
  · rw [← hcategory]
    apply congrArg MemoryRow.category (Option.some.inj (hfound.2.1.symm.trans hrow))

/-- An entry of the map of results shows a memory that the keywords or the embeddings find. -/
theorem row_of_mem_resultMap
    (hrows : tables.keywordRows orders.memories project query (some category) limit = .ok rows)
    {r : ContextResult F}
    (h : r ∈ tables.resultMap sorting orders codec project vector limit rows) :
  ∃ row ∈ tables.memories.filter (fun row => row.id ∈ rows.map MemoryRow.id
      ∨ row.id ∈ tables.vectorIds sorting orders project vector limit),
    row.id = r.id ∧ estimateTokens row.content = estimateTokens r.content
  := by
  have hkeywords : ContextResult.Shows (fun id content _ => ∃ row ∈ tables.memories.filter
      (fun row => row.id ∈ rows.map MemoryRow.id
        ∨ row.id ∈ tables.vectorIds sorting orders project vector limit),
      row.id = id ∧ estimateTokens row.content = estimateTokens content)
      (ContextResult.ofKeywords (rows.map (memoryFromRow codec)) : List (ContextResult F)) := by
    apply ContextResult.shows_ofKeywords
    intro mem hmem
    obtain ⟨row, hrow, rfl⟩ := List.mem_map.mp hmem
    have hmemory := projectMemories_sublist.subset (mem_of_mem_keywordRows hrows hrow)
    refine ⟨row, List.mem_filter.mpr ⟨hmemory, ?_⟩, rfl, rfl⟩
    apply decide_eq_true (Or.inl (List.mem_map_of_mem hrow))
  cases vector with
  | none => apply hkeywords r h
  | some queryVec =>
      apply ContextResult.shows_mergeVectors hkeywords _ r h
      intro e he htype mem hfind
      obtain ⟨row, hhead, rfl⟩ := Option.map_eq_some_iff.mp (Except.ok.inj hfind)
      have hrow := (orders.memories.perm _).mem_iff.mp (List.mem_of_head? hhead)
      obtain ⟨hmemory, hid⟩ := List.mem_filter.mp hrow
      obtain hid : row.id = e.2.1 := of_decide_eq_true hid
      refine ⟨row, List.mem_filter.mpr ⟨hmemory, decide_eq_true (Or.inr ?_)⟩, hid, rfl⟩
      rw [hid]
      obtain ⟨entityType, entityId, similarity⟩ := e
      obtain rfl : entityType = "memory" := htype
      exact mem_vectorIds.mpr ⟨queryVec, similarity, rfl, he⟩

theorem nodup_resultMap :
  (ContextResult.ids (tables.resultMap sorting orders codec project vector limit rows)).Nodup
  := by
  cases vector with
  | none => apply ContextResult.nodup_ofKeywords
  | some queryVec => apply ContextResult.nodup_merge (ContextResult.nodup_ofKeywords _)

/-- The entries of the map of results have the tokens of memories that are found. -/
theorem tokenCount_resultMap_le
    (hrows : tables.keywordRows orders.memories project query (some category) limit = .ok rows) :
  ContextResult.tokenCount (tables.resultMap sorting orders codec project vector limit rows)
    ≤ tables.foundTokens sorting orders project vector limit rows
  := by
  apply sum_le_sum_of_keys nodup_resultMap
  intro r hr
  apply row_of_mem_resultMap hrows hr

/-- What is returned is in the category when what only the embeddings find is. -/
theorem category_of_mem_ranked
    (h : tables.KeepsCategory sorting orders project query vector (max budget 20) category)
    (hrows : tables.keywordRows orders.memories project query (some category) (max budget 20)
      = .ok rows)
    {r : ContextResult F} (hr : r ∈ (ContextResult.ranked sorting orders budget
      (tables.resultMap sorting orders codec project vector (max budget 20) rows)).1) :
  r.category = category
  := by
  rcases category_of_mem_resultMap hrows (ContextResult.mem_ranked hr) with
    ⟨hcategory, -⟩ | ⟨row, hfound, hcategory⟩
  · apply hcategory
  · rw [← hcategory]
    apply h rows r.id row hrows hfound

/-- What only the embeddings find is in the category when all is returned and is. -/
theorem keepsCategory_of_ranked
    (hbudget : tables.HoldsFound sorting orders project query vector budget category)
    (h : ∀ rows, tables.keywordRows orders.memories project query (some category) (max budget 20)
      = .ok rows →
    ∀ r ∈ (ContextResult.ranked sorting orders budget
      (tables.resultMap sorting orders codec project vector (max budget 20) rows)).1,
      r.category = category) :
  tables.KeepsCategory sorting orders project query vector (max budget 20) category
  := by
  intro rows id row hrows hfound
  obtain ⟨r, hr, hcategory⟩ := exists_mem_resultMap codec hrows hfound
  rw [← hcategory]
  apply h rows hrows r
  apply ContextResult.mem_ranked_of_le
  · apply (tokenCount_resultMap_le hrows).trans (hbudget rows hrows)
  · apply hr

end MemoryTables

variable {sorting orders codec} in
/-- What a hybrid search on a reliable database returns. -/
theorem HybridSearch.runs_getContext_ok {s s' : MemoryState} (h : s.db.Reliable)
    {project query : String} {vector : Option (List F)} {budget : ℕ} {category : Option String}
    {found : List (ContextResult F) × ℕ} :
  (HybridSearch.getContext sorting orders codec project query vector budget category).Runs s
      (.ok found) s'
    ↔ s' = s ∧ ∃ rows, s.db.tables.keywordRows orders.memories project query category
        (max budget 20) = .ok rows
      ∧ found = ContextResult.ranked sorting orders budget
        (s.db.tables.resultMap sorting orders codec project vector (max budget 20) rows)
  := by
  have hreads := HybridSearch.reads_getContext sorting orders codec h project query vector budget
    category (.ok found) s'
  refine hreads.trans (and_comm.trans (and_congr_right ?_))
  intro _
  simp only [MemoryTables.context]
  cases s.db.tables.keywordRows orders.memories project query category (max budget 20) with
  | error e =>
      constructor
      · intro herror
        cases herror
      · rintro ⟨rows, hrows, -⟩
        cases hrows
  | ok rows =>
      constructor
      · intro hfound
        use rows, rfl, Except.ok.inj hfound
      · rintro ⟨rows', hrows, hfound⟩
        obtain rfl := Except.ok.inj hrows
        rw [hfound]
        rfl

variable {sorting orders codec} in
/-- What the calls of a hybrid search return is what is ranked of the map of results. -/
theorem HybridSearch.returns_iff {s : MemoryState} (h : s.db.Reliable) {project query : String}
    {vector : Option (List F)} {budget : ℕ} {category : String} {P : ContextResult F → Prop} :
  (∀ results tokens s', (HybridSearch.getContext sorting orders codec project query vector budget
        (some category)).Runs s (.ok (results, tokens)) s' →
      ∀ r ∈ results, P r)
    ↔ ∀ rows, s.db.tables.keywordRows orders.memories project query (some category)
        (max budget 20) = .ok rows →
      ∀ r ∈ (ContextResult.ranked sorting orders budget (s.db.tables.resultMap sorting orders codec
        project vector (max budget 20) rows)).1, P r
  := by
  constructor
  · intro hruns rows hrows
    apply hruns _ _ s ((HybridSearch.runs_getContext_ok h).mpr ⟨rfl, rows, hrows, rfl⟩)
  · intro hranked results tokens s' hruns
    obtain ⟨-, rows, hrows, hfound⟩ := (HybridSearch.runs_getContext_ok h).mp hruns
    have hkept := hranked rows hrows
    rw [← hfound] at hkept
    apply hkept

variable {sorting orders codec} in
/-- A call of `searchMemory` that succeeds answers the first results of a hybrid search. -/
theorem MemoryTools.of_runs_searchMemory {args answer : Json} {s s' : MemoryState}
    (h : (MemoryTools.searchMemory sorting orders codec args).Runs s (.ok answer) s') :
  ∃ project query results tokens s₁, (args.index "project").asStr = some project
    ∧ (args.index "query").asStr = some query
    ∧ (HybridSearch.getContext sorting orders codec project query (vectorOf F args)
      (optionalU64 args "limit" 10 * 200).toNat (optionalStr args "category")).Runs s
        (.ok (results, tokens)) s₁
    ∧ answer.index "results"
      = .array ((results.take (optionalU64 args "limit" 10).toNat).map ContextResult.toJson)
  := by
  rcases MemoryTools.of_runs_required h with ⟨project, hproject, h⟩ | ⟨⟨e, he⟩, -⟩
  · rcases MemoryTools.of_runs_required h with ⟨query, hquery, h⟩ | ⟨⟨e, he⟩, -⟩
    · rcases MemoryM.runs_bind.mp h with ⟨⟨results, tokens⟩, s₁, hsearch, hanswer⟩ | ⟨e, he, -⟩
      · rcases MemoryM.of_runs_named hsearch with ⟨found, hfound, hsearch⟩ | ⟨e, he, -⟩
        · obtain rfl := Except.ok.inj hfound
          obtain ⟨hanswer, -⟩ := MemoryM.runs_pure.mp hanswer
          obtain rfl := Except.ok.inj hanswer
          exact ⟨project, query, results, tokens, s₁, hproject, hquery, hsearch, rfl⟩
        · cases he
      · cases he
    · cases he
  · cases he

/-- What a hybrid search with a category returns is all in the category if the memories that only
their embeddings find are; and only if, when the budget holds all that is found.  Then
`searchMemory` answers memories of the category only. -/
theorem context_category_iff {s : MemoryState} (h : s.db.Reliable) (project query : String)
    (vector : Option (List F)) (budget : ℕ) (category : String) :
  (s.db.tables.KeepsCategory sorting orders project query vector (max budget 20) category →
    ∀ results tokens s', (HybridSearch.getContext sorting orders codec project query vector budget
        (some category)).Runs s (.ok (results, tokens)) s' →
      ∀ r ∈ results, r.category = category)
  ∧ (s.db.tables.HoldsFound sorting orders project query vector budget category →
    ((∀ results tokens s', (HybridSearch.getContext sorting orders codec project query vector
          budget (some category)).Runs s (.ok (results, tokens)) s' →
        ∀ r ∈ results, r.category = category)
      ↔ s.db.tables.KeepsCategory sorting orders project query vector (max budget 20) category))
  ∧ ∀ args answer s', (args.index "project").asStr = some project →
    (args.index "query").asStr = some query → vectorOf F args = vector →
    optionalStr args "category" = some category →
    (optionalU64 args "limit" 10 * 200).toNat = budget →
    s.db.tables.KeepsCategory sorting orders project query vector (max budget 20) category →
    (MemoryTools.searchMemory sorting orders codec args).Runs s (.ok answer) s' →
    ∃ items, answer.index "results" = .array items
      ∧ ∀ item ∈ items, item.index "category" = .string category
  := by
  have hreturns := @HybridSearch.returns_iff F _ sorting orders codec s h project query vector
    budget category (fun r => r.category = category)
  have hkept : s.db.tables.KeepsCategory sorting orders project query vector (max budget 20)
      category → _ := fun hkeeps => hreturns.mpr (fun rows hrows r hr =>
    MemoryTables.category_of_mem_ranked hkeeps hrows hr)
  refine ⟨hkept, ?_, ?_⟩
  · intro hbudget
    refine ⟨fun hresults => ?_, hkept⟩
    apply MemoryTables.keepsCategory_of_ranked hbudget (hreturns.mp hresults)
  · intro args answer s' hproject hquery hvector hcategory hbudget hkeeps hruns
    obtain ⟨project', query', results, tokens, s₁, hproject', hquery', hsearch, hresults⟩ :=
      MemoryTools.of_runs_searchMemory hruns
    obtain rfl := Option.some.inj (hproject.symm.trans hproject')
    obtain rfl := Option.some.inj (hquery.symm.trans hquery')
    rw [hvector, hcategory, hbudget] at hsearch
    refine ⟨_, hresults, ?_⟩
    intro item hitem
    obtain ⟨r, hr, rfl⟩ := List.mem_map.mp hitem
    have hr' := hkept hkeeps _ _ _ hsearch r (List.mem_of_mem_take hr)
    rw [← hr', ContextResult.toJson, Json.index_collect]
    rfl

end Filter

/-! ### A note found by its embedding -/

/-- Rows are met, and results collected, in the order of their insertion. -/
def insertedOrders : Orders F32 :=
  ⟨.inserted, .inserted, .inserted, .inserted⟩

/-- A note with an embedding. -/
def embeddedNote : MemoryState where
  db :=
    { tables :=
        { MemoryTables.empty with
          memories := [noteRow "m1" "alpha" "first"]
          embeddings :=
            [(MemoryTools.memoryEmbedding "e1" "m1" "alpha" [(⟨0x3f800000⟩ : F32)]).row] }
      faults := [] }
  issued := ["e1", "m1"]

/-- Without words the search starts from the last updated memories. -/
theorem keywordRows_of_noWords (scan : Scan MemoryRow) (project : String)
    (category : Option String) (limit : ℕ) (tables : MemoryTables) :
  tables.keywordRows scan project "" category limit
    = .ok (tables.recentRows scan project category limit)
  := by
  have hempty : (splitWhitespace "").isEmpty = true := by decide
  simp only [MemoryTables.keywordRows, hempty, if_true]

/-- The note is returned although its category is not the one asked for. -/
theorem not_context_category_embedded :
  ∃ results tokens, (HybridSearch.getContext SortBy.merge insertedOrders noTags "alpha" ""
      (some [⟨0x3f800000⟩]) 2000 (some "decisions")).Runs embeddedNote (.ok (results, tokens))
      embeddedNote
    ∧ results.map ContextResult.category = ["notes"]
  := by
  have hkeywords : embeddedNote.db.tables.recentRows insertedOrders.memories "alpha"
      (some "decisions") 2000 = [] := by
    simp [MemoryTables.recentRows, MemoryTables.projectMemories, embeddedNote, noteRow, Sql.limit,
      Scan.orderBy, insertedOrders, Scan.inserted]
  have hsimilar : embeddedNote.db.tables.similarEntities SortBy.merge insertedOrders.embeddings
      "alpha" [⟨0x3f800000⟩] "default" 2000
      = [("memory", "m1", cosineSimilarity [⟨0x3f800000⟩] [(⟨0x3f800000⟩ : F32)])] :=
    congrArg (List.take 2000) (List.mergeSort_singleton _)
  let note : ContextResult F32 :=
    { id := "m1", content := "first", category := "notes",
      score := cosineSimilarity [⟨0x3f800000⟩] [⟨0x3f800000⟩], source := "vector" }
  have hmap : embeddedNote.db.tables.resultMap SortBy.merge insertedOrders noTags "alpha"
      (some [⟨0x3f800000⟩]) 2000 [] = [note] := by
    rw [MemoryTables.resultMap, hsimilar]
    rfl
  use [note], ContextResult.tokenCount [note]
  constructor
  · have hreliable : embeddedNote.db.Reliable := rfl
    apply (HybridSearch.runs_getContext_ok hreliable).mpr
    use rfl, []
    rw [keywordRows_of_noWords]
    use congrArg Except.ok hkeywords
    rw [← ContextResult.ranked_singleton SortBy.merge insertedOrders 2000 note, ← hmap]
    rfl
  · rfl

def searchArgs : Json :=
  .object [("category", .string "notes"), ("project", .string "alpha"), ("query", .string ""),
    ("vector", .array [.number (.float ⟨0x3ff0000000000000⟩)])]

theorem runs_searchMemory_embedded :
  ∃ answer, (MemoryTools.searchMemory SortBy.merge insertedOrders noTags searchArgs).Runs
    embeddedNote (.ok answer) embeddedNote
  := by
  have hreliable : embeddedNote.db.Reliable := rfl
  have hkeywords := keywordRows_of_noWords insertedOrders.memories "alpha" (some "notes") 2000
    embeddedNote.db.tables
  obtain ⟨found, hsearch⟩ : ∃ found, (HybridSearch.getContext SortBy.merge insertedOrders noTags
      "alpha" "" (vectorOf F32 searchArgs) 2000 (some "notes")).Runs embeddedNote (.ok found)
      embeddedNote :=
    ⟨_, (HybridSearch.runs_getContext_ok hreliable).mpr ⟨rfl, _, hkeywords, rfl⟩⟩
  use .object [("results", .array ((found.1.take 10).map ContextResult.toJson))]
  apply MemoryM.runs_bind.mpr
  refine Or.inl ⟨"alpha", embeddedNote, MemoryM.runs_requiredStr.mpr ⟨rfl, rfl⟩, ?_⟩
  apply MemoryM.runs_bind.mpr
  refine Or.inl ⟨"", embeddedNote, MemoryM.runs_requiredStr.mpr ⟨rfl, rfl⟩, ?_⟩
  apply MemoryM.runs_bind.mpr
  refine Or.inl ⟨found, embeddedNote, MemoryM.runs_named.mpr ⟨.ok found, hsearch, rfl⟩, ?_⟩
  apply MemoryM.runs_pure.mpr ⟨rfl, rfl⟩

/-- A search for notes answers notes; a search for decisions would, if only decisions had
embeddings. -/
theorem context_category_searched :
  (∀ results tokens s', (HybridSearch.getContext SortBy.merge insertedOrders noTags "alpha" ""
      (vectorOf F32 searchArgs) 2000 (some "notes")).Runs embeddedNote (.ok (results, tokens)) s' →
    ∀ r ∈ results, r.category = "notes")
  ∧ ((∀ results tokens s', (HybridSearch.getContext SortBy.merge insertedOrders noTags "alpha" ""
      (vectorOf F32 searchArgs) 2000 (some "decisions")).Runs embeddedNote (.ok (results, tokens))
        s' →
      ∀ r ∈ results, r.category = "decisions")
    ↔ embeddedNote.db.tables.KeepsCategory SortBy.merge insertedOrders "alpha" ""
      (vectorOf F32 searchArgs) 2000 "decisions")
  ∧ ∃ answer, (MemoryTools.searchMemory SortBy.merge insertedOrders noTags searchArgs).Runs
      embeddedNote (.ok answer) embeddedNote
    ∧ ∃ items, answer.index "results" = .array items
      ∧ ∀ item ∈ items, item.index "category" = .string "notes"
  := by
  have hreliable : embeddedNote.db.Reliable := rfl
  have hnotes := context_category_iff SortBy.merge insertedOrders noTags hreliable
    "alpha" "" (vectorOf F32 searchArgs) 2000 "notes"
  have hdecisions := context_category_iff SortBy.merge insertedOrders noTags hreliable
    "alpha" "" (vectorOf F32 searchArgs) 2000 "decisions"
  have hkeeps : embeddedNote.db.tables.KeepsCategory SortBy.merge insertedOrders "alpha" ""
      (vectorOf F32 searchArgs) 2000 "notes" := by
    intro rows id row _ hfound
    have hhead := (insertedOrders.memories.perm _).mem_iff.mp (List.mem_of_head? hfound.2.1)
    have hrow : row ∈ embeddedNote.db.tables.memories := List.mem_of_mem_filter hhead
    obtain rfl := List.mem_singleton.mp hrow
    rfl
  have hbudget : embeddedNote.db.tables.HoldsFound SortBy.merge insertedOrders "alpha" ""
      (vectorOf F32 searchArgs) 2000 "decisions" := by
    intro rows _
    apply MemoryTables.foundTokens_le.trans
    decide
  refine ⟨hnotes.1 hkeeps, hdecisions.2.1 hbudget, ?_⟩
  obtain ⟨answer, hruns⟩ := runs_searchMemory_embedded
  use answer, hruns
  apply hnotes.2.2 searchArgs answer embeddedNote rfl rfl rfl rfl rfl hkeeps hruns

end OrchestraRag
