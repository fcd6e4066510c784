import OrchestraRag.Memory.Ownership

/-!
# Projects are isolated

Two databases with the same rows of a project answer the tools that read the project alike
(`Reached.isolated`), and the memories and observations they show are the project's.  A memory
found by its embedding is looked up by its id alone; it is the project's because embeddings
carry the projects of their memories.
-/

namespace OrchestraRag

open Sql

variable {F : Type}

/-- The rows of a project are the same in both, and queries on them meet them in the same
order. -/
structure SameProject (orders : Orders F) (project : String) (tables tables' : MemoryTables) :
    Prop where
  memories : orders.memories.Agree (tables.projectMemories project none)
    (tables'.projectMemories project none)
  embeddings : orders.embeddings.Agree
    (tables.embeddings.filter (fun row => row.project = project))
    (tables'.embeddings.filter (fun row => row.project = project))
  sessions : (tables.projectSessions project).Perm (tables'.projectSessions project)
  observations : orders.observations.Agree (tables.projectObservations project none)
    (tables'.projectObservations project none)

namespace MemoryTables

variable {project : String} {tables : MemoryTables}

theorem mem_projectMemories {row : MemoryRow} :
  row ∈ tables.projectMemories project none ↔ row ∈ tables.memories ∧ row.project = project
  := by
  simp [projectMemories]

theorem projectMemories_some (category : String) :
  tables.projectMemories project (some category)
    = (tables.projectMemories project none).filter (fun row => row.category = category)
  := by
  rw [projectMemories, projectMemories, List.filter_filter]
  apply List.filter_congr
  intro row _
  rw [Bool.decide_and, Bool.and_comm]

theorem projectObservations_some (observationType : String) :
  tables.projectObservations project (some observationType)
    = (tables.projectObservations project none).filter
      (fun row => row.observationType = observationType)
  := by
  rw [projectObservations, projectObservations, List.filter_filter]
  apply List.filter_congr
  intro row _
  rw [Bool.decide_and, Bool.and_comm]

theorem projectEmbeddings_eq (model : String) :
  tables.projectEmbeddings project model
    = (tables.embeddings.filter (fun row => row.project = project)).filter
      (fun row => row.model = model)
  := by
  rw [projectEmbeddings, List.filter_filter]
  apply List.filter_congr
  intro row _
  rw [Bool.decide_and, Bool.and_comm]

theorem projectMemories_subset (category : Option String) :
  tables.projectMemories project category ⊆ tables.projectMemories project none
  := by
  cases category with
  | none => apply List.Subset.refl
  | some category =>
      rw [projectMemories_some]
      apply List.filter_sublist.subset

theorem mem_of_mem_limit {ρ : Type} {n : ℤ} {rows : List ρ} {r : ρ} (h : r ∈ Sql.limit n rows) :
  r ∈ rows
  := by
  rw [Sql.limit] at h
  split at h
  · apply h
  · apply List.mem_of_mem_take h

theorem mem_of_mem_pageRows {scan : Scan MemoryRow} {category : Option String} {limit offset : ℕ}
    {row : MemoryRow} (h : row ∈ tables.pageRows scan project category limit offset) :
  row ∈ tables.projectMemories project none
  := by
  apply projectMemories_subset category
  apply Scan.mem_orderBy.mp (List.mem_of_mem_drop (mem_of_mem_limit h))

/-- A keyword search finds memories of the project, in the category if one is given. -/
theorem mem_of_mem_keywordRows {scan : Scan MemoryRow} {query : String} {category : Option String}
    {limit : ℕ} {rows : List MemoryRow} {row : MemoryRow}
    (h : tables.keywordRows scan project query category limit = .ok rows) (hrow : row ∈ rows) :
  row ∈ tables.projectMemories project category
  := by
  rw [keywordRows] at h
  split at h
  · obtain rfl := Except.ok.inj h
    apply Scan.mem_orderBy.mp (mem_of_mem_limit hrow)
  · rw [matchingRows] at h
    split at h
    · obtain rfl := Except.ok.inj h
      cases hrow
    · split at h
      · obtain rfl := Except.ok.inj h
        apply List.mem_of_mem_filter (Scan.mem_orderBy.mp (mem_of_mem_limit hrow))
      · cases h

/-- A vector search of the project finds entities of its embeddings. -/
theorem mem_links_of_mem_similarEntities [SingleFloat F] {sorting : SortBy}
    {scan : Scan EmbeddingRow} {queryVector : List F} {model : String} {limit : ℕ}
    {e : String × String × F}
    (h : e ∈ tables.similarEntities sorting scan project queryVector model limit) :
  (e.2.1, project) ∈ tables.embeddingLinks
  := by
  have hsorted := SortBy.mem_sort.mp (List.mem_of_mem_take h)
  obtain ⟨row, hrow, rfl⟩ := List.mem_map.mp hsorted
  have hfound := List.mem_filter.mp ((scan.perm _).mem_iff.mp hrow)
  have hproject := (of_decide_eq_true hfound.2).1
  rw [← hproject]
  apply List.mem_map_of_mem hfound.1

/-- The memory that an embedding of the project is about is the project's. -/
theorem Owned.filter_memories {issued : List String} {id : String} (h : tables.Owned issued)
    (hlink : (id, project) ∈ tables.embeddingLinks) :
  tables.memories.filter (fun row => row.id = id)
    = (tables.projectMemories project none).filter (fun row => row.id = id)
  := by
  rw [projectMemories, List.filter_filter]
  apply List.filter_congr
  intro row hrow
  by_cases hid : row.id = id
  · have howner : (row.id, row.project) ∈ tables.memoryOwners := List.mem_map_of_mem hrow
    have hproject := h.memories.same_owner _ hlink _ howner hid
    simp [hid, show row.project = project from hproject]
  · simp [hid]

theorem Owned.memoryRow_eq {issued : List String} {id : String} (h : tables.Owned issued)
    (hlink : (id, project) ∈ tables.embeddingLinks) (scan : Scan MemoryRow) :
  tables.memoryRow scan id
    = (scan.order ((tables.projectMemories project none).filter (fun row => row.id = id))).head?
  := by
  rw [memoryRow, h.filter_memories hlink]

end MemoryTables

/-! ### The queries -/

namespace SameProject

variable {orders : Orders F} {project : String} {tables tables' : MemoryTables}

section Queries

variable (h : SameProject orders project tables tables')

include h

theorem projectMemories (category : Option String) :
  orders.memories.Agree (tables.projectMemories project category)
    (tables'.projectMemories project category)
  := by
  cases category with
  | none => apply h.memories
  | some category =>
      rw [MemoryTables.projectMemories_some, MemoryTables.projectMemories_some]
      apply h.memories.filter

theorem pageRows_eq (category : Option String) (limit offset : ℕ) :
  tables.pageRows orders.memories project category limit offset
    = tables'.pageRows orders.memories project category limit offset
  := by
  rw [MemoryTables.pageRows, MemoryTables.pageRows, (h.projectMemories category).orderBy_eq]

theorem recentRows_eq (category : Option String) (limit : ℕ) :
  tables.recentRows orders.memories project category limit
    = tables'.recentRows orders.memories project category limit
  := by
  rw [MemoryTables.recentRows, MemoryTables.recentRows, (h.projectMemories category).orderBy_eq]

theorem matchingRows_eq (keywords : List String) (category : Option String) (limit : ℕ) :
  tables.matchingRows orders.memories project keywords category limit
    = tables'.matchingRows orders.memories project keywords category limit
  := by
  have hrows := h.projectMemories category
  rw [MemoryTables.matchingRows, MemoryTables.matchingRows, hrows.perm.all_eq,
    (hrows.filter _).orderBy_eq]

theorem keywordRows_eq (query : String) (category : Option String) (limit : ℕ) :
  tables.keywordRows orders.memories project query category limit
    = tables'.keywordRows orders.memories project query category limit
  := by
  rw [MemoryTables.keywordRows, MemoryTables.keywordRows, h.recentRows_eq, h.matchingRows_eq]

theorem categoryCounts_eq :
  tables.categoryCounts project = tables'.categoryCounts project
  := by
  have hcategories := (h.projectMemories none).perm.map MemoryRow.category
  have hsorted : ∀ categories : List String,
      (categories.mergeSort (fun a b => a ≤ b)).Pairwise (· ≤ ·) :=
    List.pairwise_mergeSort' (· ≤ ·)
  have hperm := (List.mergeSort_perm _ (fun a b => decide (a ≤ b))).trans
    (hcategories.dedup.trans (List.mergeSort_perm _ (fun a b => decide (a ≤ b))).symm)
  rw [MemoryTables.categoryCounts, MemoryTables.categoryCounts,
    hperm.eq_of_pairwise' (hsorted _) (hsorted _)]
  apply List.map_congr_left
  intro category _
  rw [hcategories.count_eq]

theorem similarEntities_eq [SingleFloat F] (sorting : SortBy) (queryVector : List F)
    (model : String) (limit : ℕ) :
  tables.similarEntities sorting orders.embeddings project queryVector model limit
    = tables'.similarEntities sorting orders.embeddings project queryVector model limit
  := by
  rw [MemoryTables.similarEntities, MemoryTables.similarEntities,
    MemoryTables.projectEmbeddings_eq, MemoryTables.projectEmbeddings_eq,
    (h.embeddings.filter _).order_eq]

theorem lastStart_eq :
  tables.lastStart project = tables'.lastStart project
  := by
  have hstarts := h.sessions.map SessionRow.startedAt
  apply Option.ext
  intro start
  rw [MemoryTables.lastStart, MemoryTables.lastStart, List.max?_eq_some_iff,
    List.max?_eq_some_iff]
  simp only [hstarts.mem_iff]

theorem recentObservations_eq (observationType : Option String) (limit : ℕ) :
  tables.recentObservations orders.observations project observationType limit
    = tables'.recentObservations orders.observations project observationType limit
  := by
  have hrows : orders.observations.Agree (tables.projectObservations project observationType)
      (tables'.projectObservations project observationType) := by
    cases observationType with
    | none => apply h.observations
    | some observationType =>
        rw [MemoryTables.projectObservations_some, MemoryTables.projectObservations_some]
        apply h.observations.filter
  rw [MemoryTables.recentObservations, MemoryTables.recentObservations, hrows.orderBy_eq]

end Queries

/-! ### The search -/

section Search

variable {issued issued' : List String} (h : SameProject orders project tables tables')
  (hw : tables.Owned issued) (hw' : tables'.Owned issued')

include h hw hw'

/-- The two look up the same memory for an embedding of the project. -/
theorem memoryRow_eq {id : String} (hlink : (id, project) ∈ tables.embeddingLinks)
    (hlink' : (id, project) ∈ tables'.embeddingLinks) :
  tables.memoryRow orders.memories id = tables'.memoryRow orders.memories id
  := by
  rw [hw.memoryRow_eq hlink, hw'.memoryRow_eq hlink', (h.memories.filter _).order_eq]

theorem resultMap_eq [SingleFloat F] (sorting : SortBy) (codec : TagCodec) (vector : Option (List F)) (limit : ℕ)
    (rows : List MemoryRow) :
  tables.resultMap sorting orders codec project vector limit rows
    = tables'.resultMap sorting orders codec project vector limit rows
  := by
  cases vector with
  | none => rfl
  | some queryVec =>
      simp only [MemoryTables.resultMap]
      rw [← h.similarEntities_eq]
      apply ContextResult.mergeVectors_congr
      intro e he _
      have hlink := MemoryTables.mem_links_of_mem_similarEntities he
      rw [h.similarEntities_eq] at he
      rw [h.memoryRow_eq hw hw' hlink (MemoryTables.mem_links_of_mem_similarEntities he)]

theorem context_eq [SingleFloat F] (sorting : SortBy) (codec : TagCodec) (query : String)
    (vector : Option (List F)) (budget : ℕ) (category : Option String) :
  tables.context sorting orders codec project query vector budget category
    = tables'.context sorting orders codec project query vector budget category
  := by
  have hmap := h.resultMap_eq hw hw' sorting codec vector (max budget 20)
  simp only [MemoryTables.context, h.keywordRows_eq, hmap]

end Search

end SameProject

/-! ### What is shown -/

/-- A memory of the project has the id, the content and the category. -/
def MemoryTables.HasOwn (project : String) (tables : MemoryTables) (id content category : String) :
    Prop :=
  ∃ row ∈ tables.projectMemories project none,
    row.id = id ∧ row.content = content ∧ row.category = category

/-- A search shows memories of the project. -/
theorem shows_context [SingleFloat F] {orders : Orders F} {project : String}
    {tables : MemoryTables} {issued : List String} (hw : tables.Owned issued) (sorting : SortBy)
    (codec : TagCodec) (query : String) (vector : Option (List F)) (budget : ℕ)
    (category : Option String) {found : List (ContextResult F) × ℕ}
    (hfound : tables.context sorting orders codec project query vector budget category
      = .ok found) :
  ContextResult.Shows (tables.HasOwn project) found.1
  := by
  simp only [MemoryTables.context] at hfound
  cases hrows : tables.keywordRows orders.memories project query category (max budget 20) with
  | error e =>
      rw [hrows] at hfound
      cases hfound
  | ok rows =>
      rw [hrows] at hfound
      obtain rfl := Except.ok.inj hfound
      intro r hr
      have hkeywords : ContextResult.Shows (tables.HasOwn project)
          (ContextResult.ofKeywords (rows.map (memoryFromRow codec)) : List (ContextResult F)) := by
        apply ContextResult.shows_ofKeywords
        intro mem hmem
        obtain ⟨row, hrow, rfl⟩ := List.mem_map.mp hmem
        exact ⟨row, MemoryTables.projectMemories_subset _
          (MemoryTables.mem_of_mem_keywordRows hrows hrow), rfl, rfl, rfl⟩
      have hmap : ContextResult.Shows (tables.HasOwn project)
          (tables.resultMap sorting orders codec project vector (max budget 20) rows) := by
        cases vector with
        | none => apply hkeywords
        | some queryVec =>
            apply ContextResult.shows_mergeVectors hkeywords
            intro e he _ mem hmem
            have hlink := MemoryTables.mem_links_of_mem_similarEntities he
            rw [hw.memoryRow_eq hlink] at hmem
            obtain ⟨row, hhead, rfl⟩ := Option.map_eq_some_iff.mp (Except.ok.inj hmem)
            have hrow := (orders.memories.perm _).mem_iff.mp (List.mem_of_head? hhead)
            obtain ⟨hown, hid⟩ := List.mem_filter.mp hrow
            exact ⟨row, hown, of_decide_eq_true hid, rfl, rfl⟩
      apply hmap r (ContextResult.mem_ranked hr)

/-- The items of a field of an answer. -/
def Json.items (answer : Json) (field : String) : List Json :=
  ((answer.get field).bind Json.asArray).getD []

theorem Json.items_collect (field : String) (entries : List (String × Json)) :
  (Json.object (SortedMap.collect entries)).items field
    = ((entries.reverse.lookup field).bind Json.asArray).getD []
  := by
  rw [Json.items, Json.get_collect]

/-- The item is a memory, and its own project is `project`. -/
structure ShowsMemory (project : String) (tables : MemoryTables) (item : Json) : Prop where
  row : ∃ row ∈ tables.memories, item.index "id" = .string row.id
    ∧ item.index "content" = .string row.content ∧ item.index "category" = .string row.category
  project : ∀ row ∈ tables.memories, item.index "id" = .string row.id → row.project = project

/-- The item is an observation, and its own project and that of its session are `project`. -/
structure ShowsObservation (project : String) (tables : MemoryTables) (item : Json) : Prop where
  row : ∃ row ∈ tables.observations, item.index "id" = .string row.id
    ∧ item.index "content" = .string row.content
    ∧ item.index "type" = .string row.observationType
  project : ∀ row ∈ tables.observations, item.index "id" = .string row.id →
    row.project = project
      ∧ ∀ session ∈ tables.sessions, session.id = row.sessionId → session.project = project

/-- The field of an answer that holds memories. -/
def ProjectRead.memoryField : ProjectRead → String
  | .listMemories => "memories"
  | .searchMemory => "results"
  | .getContext => "context"
  | .getProjectSummary => "recent_memories"

/-- The memories and the observations of an answer are the project's. -/
structure Within (project : String) (tables : MemoryTables) (tool : ProjectRead) (answer : Json) :
    Prop where
  memories : ∀ item ∈ answer.items tool.memoryField, ShowsMemory project tables item
  observations : ∀ item ∈ answer.items "recent_observations", ShowsObservation project tables item

section Shown

variable {project : String} {tables : MemoryTables} {issued : List String}
  (hw : tables.Owned issued)

include hw

theorem showsMemory_of_hasOwn {item : Json} {id content category : String}
    (h : tables.HasOwn project id content category) (hid : item.index "id" = .string id)
    (hcontent : item.index "content" = .string content)
    (hcategory : item.index "category" = .string category) :
  ShowsMemory project tables item
  := by
  obtain ⟨row, hrow, rfl, rfl, rfl⟩ := h
  obtain ⟨hmem, hproject⟩ := MemoryTables.mem_projectMemories.mp hrow
  constructor
  · exact ⟨row, hmem, hid, hcontent, hcategory⟩
  · intro row' hmem' hid'
    have hsame : row'.id = row.id := Json.string.inj (hid'.symm.trans hid)
    have howner : (row.id, row.project) ∈ tables.memoryOwners := List.mem_map_of_mem hmem
    have howner' : (row'.id, row'.project) ∈ tables.memoryOwners := List.mem_map_of_mem hmem'
    rw [← hproject]
    apply hw.memories.owner_eq howner' howner hsame

theorem showsMemory_toJson {codec : TagCodec} {row : MemoryRow}
    (hrow : row ∈ tables.projectMemories project none) :
  ShowsMemory project tables (memoryFromRow codec row).toJson
    ∧ ShowsMemory project tables (memoryFromRow codec row).toSummaryJson
  := by
  have hown : tables.HasOwn project row.id row.content row.category := ⟨row, hrow, rfl, rfl, rfl⟩
  constructor
  · apply showsMemory_of_hasOwn hw hown
    · apply Json.index_collect
    · apply Json.index_collect
    · apply Json.index_collect
  · apply showsMemory_of_hasOwn hw hown
    · apply Json.index_collect
    · apply Json.index_collect
    · apply Json.index_collect

theorem showsMemory_result [SingleFloat F] {result : ContextResult F}
    (h : tables.HasOwn project result.id result.content result.category) :
  ShowsMemory project tables result.toJson
  := by
  apply showsMemory_of_hasOwn hw h
  · apply Json.index_collect
  · apply Json.index_collect
  · apply Json.index_collect

theorem showsObservation_toJson {row : ObservationRow}
    (hrow : row ∈ tables.projectObservations project none) :
  ShowsObservation project tables row.toJson
  := by
  obtain ⟨hmem, hproject⟩ := List.mem_filter.mp hrow
  have hid : row.toJson.index "id" = .string row.id := by
    apply Json.index_collect
  constructor
  · use row, hmem, hid
    constructor
    · apply Json.index_collect
    · apply Json.index_collect
  · intro row' hmem' hid'
    have hsame : row'.id = row.id := Json.string.inj (hid'.symm.trans hid)
    obtain rfl := List.inj_on_of_nodup_map hw.observations hmem' hmem hsame
    use of_decide_eq_true hproject
    intro session hsession hsessionId
    have howner : (session.id, session.project) ∈ tables.sessionOwners :=
      List.mem_map_of_mem hsession
    have hlink : (row'.sessionId, row'.project) ∈ tables.observationLinks :=
      List.mem_map_of_mem hmem'
    rw [← of_decide_eq_true hproject]
    apply hw.sessions.same_owner _ hlink _ howner hsessionId

end Shown

/-! ### Two runs -/

theorem SameProject.symm {orders : Orders F} {project : String} {tables tables' : MemoryTables}
    (h : SameProject orders project tables tables') :
  SameProject orders project tables' tables
  := ⟨h.memories.symm, h.embeddings.symm, h.sessions.symm, h.observations.symm⟩

section Runs

open MemoryM

variable {sorting : SortBy} {orders : Orders F} {codec : TagCodec} {project : String}
  {s s' : MemoryState} (h : SameProject orders project s.db.tables s'.db.tables)
  (hw : s.Meets MemoryTables.Owned) (hw' : s'.Meets MemoryTables.Owned)

include h hw hw'

theorem readsSame_listMemoriesPaginated (category : Option String) (limit offset : ℕ) :
  ReadsSame s s'
    (MemoryStorage.listMemoriesPaginated orders.memories codec project category limit offset)
    (fun memories => ∀ mem ∈ memories, ShowsMemory project s.db.tables mem.toJson
      ∧ ShowsMemory project s.db.tables mem.toSummaryJson)
  := by
  have hreads := MemoryStorage.reads_listMemoriesPaginated orders.memories codec hw'.reliable project
    category limit offset
  rw [← h.pageRows_eq] at hreads
  apply readsSame_of_reads (MemoryStorage.reads_listMemoriesPaginated _ _ hw.reliable _ _ _ _) hreads
  rintro memories hmemories mem hmem
  obtain rfl := Except.ok.inj hmemories
  obtain ⟨row, hrow, rfl⟩ := List.mem_map.mp hmem
  apply showsMemory_toJson hw.tables (MemoryTables.mem_of_mem_pageRows hrow)

theorem readsSame_getContext [SingleFloat F] (query : String) (vector : Option (List F)) (budget : ℕ)
    (category : Option String) :
  ReadsSame s s'
    (HybridSearch.getContext sorting orders codec project query vector budget category)
    (fun found => ∀ result ∈ found.1, ShowsMemory project s.db.tables result.toJson)
  := by
  have hreads := HybridSearch.reads_getContext sorting orders codec hw'.reliable project query vector
    budget category
  rw [← h.context_eq hw.tables hw'.tables] at hreads
  apply readsSame_of_reads (HybridSearch.reads_getContext _ _ _ hw.reliable _ _ _ _ _) hreads
  intro found hfound result hresult
  apply showsMemory_result hw.tables
  apply shows_context hw.tables sorting codec query vector budget category hfound result hresult

theorem readsSame_listMemories {args : Json} (hargs : (args.index "project").asStr = some project) :
  ReadsSame s s' (MemoryTools.listMemories orders codec args)
    (Within project s.db.tables .listMemories)
  := by
  apply (readsSame_of_given hargs).bind
  rintro _ rfl
  apply ((readsSame_listMemoriesPaginated h hw hw' _ _ _).named _).bind
  intro memories hmemories
  apply readsSame_pure
  constructor
  · intro item hitem
    rw [Json.items_collect] at hitem
    obtain ⟨mem, hmem, rfl⟩ := List.mem_map.mp hitem
    apply (hmemories mem hmem).1
  · intro item hitem
    rw [Json.items_collect] at hitem
    cases hitem

theorem readsSame_searchMemory [SingleFloat F] {args : Json}
    (hargs : (args.index "project").asStr = some project) :
  ReadsSame s s' (MemoryTools.searchMemory sorting orders codec args)
    (Within project s.db.tables .searchMemory)
  := by
  apply (readsSame_of_given hargs).bind
  rintro _ rfl
  apply (readsSame_requiredStr args "query").bind
  intro query _
  apply ((readsSame_getContext h hw hw' query _ _ _).named _).bind
  rintro ⟨results, tokens⟩ hresults
  apply readsSame_pure
  constructor
  · intro item hitem
    obtain ⟨result, hresult, rfl⟩ := List.mem_map.mp hitem
    apply hresults result (List.mem_of_mem_take hresult)
  · intro item hitem
    cases hitem

theorem readsSame_getContext_tool [SingleFloat F] {args : Json}
    (hargs : (args.index "project").asStr = some project) :
  ReadsSame s s' (MemoryTools.getContext sorting orders codec args)
    (Within project s.db.tables .getContext)
  := by
  apply (readsSame_of_given hargs).bind
  rintro _ rfl
  apply (readsSame_requiredStr args "query").bind
  intro query _
  apply ((readsSame_getContext h hw hw' query _ _ _).named _).bind
  rintro ⟨results, tokens⟩ hresults
  apply readsSame_pure
  constructor
  · intro item hitem
    rw [Json.items_collect] at hitem
    obtain ⟨result, hresult, rfl⟩ := List.mem_map.mp hitem
    apply hresults result hresult
  · intro item hitem
    rw [Json.items_collect] at hitem
    cases hitem

theorem readsSame_countByCategory :
  ReadsSame s s' (MemoryStorage.countByCategory project) (fun _ => True)
  := by
  have hreads := MemoryStorage.reads_countByCategory hw'.reliable project
  rw [← h.categoryCounts_eq] at hreads
  apply readsSame_of_reads (MemoryStorage.reads_countByCategory hw.reliable project) hreads
  intro _ _
  trivial

theorem readsSame_sessionStats :
  ReadsSame s s' (SessionManager.sessionStats project) (fun _ => True)
  := by
  have hreads := SessionManager.reads_sessionStats hw'.reliable project
  rw [← h.lastStart_eq, ← h.sessions.length_eq] at hreads
  apply readsSame_of_reads (SessionManager.reads_sessionStats hw.reliable project) hreads
  intro _ _
  trivial

theorem readsSame_listByProjectType :
  ReadsSame s s' (ObservationStorage.listByProjectType orders.observations project none 10)
    (fun rows => ∀ row ∈ rows, ShowsObservation project s.db.tables row.toJson)
  := by
  have hreads := ObservationStorage.reads_listByProjectType hw'.reliable orders.observations project
    none 10
  rw [← h.recentObservations_eq] at hreads
  apply readsSame_of_reads (ObservationStorage.reads_listByProjectType hw.reliable _ _ _ _) hreads
  rintro rows hrows row hrow
  obtain rfl := Except.ok.inj hrows
  apply showsObservation_toJson hw.tables
  apply Scan.mem_orderBy.mp (MemoryTables.mem_of_mem_limit hrow)

theorem readsSame_getProjectSummary {args : Json}
    (hargs : (args.index "project").asStr = some project) :
  ReadsSame s s' (MemoryTools.getProjectSummary orders codec args)
    (Within project s.db.tables .getProjectSummary)
  := by
  apply (readsSame_of_given hargs).bind
  rintro _ rfl
  apply ((readsSame_countByCategory h hw hw').named _).bind
  intro categories _
  apply ((readsSame_listMemoriesPaginated h hw hw' _ _ _).named _).bind
  intro recent hrecent
  apply ((readsSame_sessionStats h hw hw').named _).bind
  rintro ⟨sessionCount, lastSession⟩ _
  apply ((readsSame_listByProjectType h hw hw').named _).bind
  intro observations hobservations
  apply readsSame_pure
  constructor
  · intro item hitem
    rw [Json.items_collect] at hitem
    obtain ⟨mem, hmem, rfl⟩ := List.mem_map.mp hitem
    apply (hrecent mem hmem).2
  · intro item hitem
    rw [Json.items_collect] at hitem
    obtain ⟨row, hrow, rfl⟩ := List.mem_map.mp hitem
    apply hobservations row hrow

theorem readsSame_projectRead [SingleFloat F] (tool : ProjectRead) {args : Json}
    (hargs : (args.index "project").asStr = some project) :
  ReadsSame s s' (tool.handler sorting orders codec args) (Within project s.db.tables tool)
  := by
  cases tool with
  | listMemories => apply readsSame_listMemories h hw hw' hargs
  | searchMemory => apply readsSame_searchMemory h hw hw' hargs
  | getContext => apply readsSame_getContext_tool h hw hw' hargs
  | getProjectSummary => apply readsSame_getProjectSummary h hw hw' hargs

end Runs

/-- From two states that the memory tools reach, with the same rows of a project, a tool that
reads the project returns the same, and what it shows is the project's in both. -/
theorem Reached.isolated [SingleFloat F] {sorting : SortBy} {orders : Orders F}
    {codec : TagCodec} {s s' : MemoryState} (hs : Reached F codec s) (hs' : Reached F codec s')
    {project : String} (h : SameProject orders project s.db.tables s'.db.tables)
    (tool : ProjectRead) {args : Json} (hargs : (args.index "project").asStr = some project) :
  MemoryM.ReadsSame s s' (tool.handler sorting orders codec args)
    (fun answer => Within project s.db.tables tool answer ∧ Within project s'.db.tables tool answer)
  := by
  apply (readsSame_projectRead h hs.owned hs'.owned tool hargs).and_symm
  apply readsSame_projectRead h.symm hs'.owned hs.owned tool hargs

/-! ### Notes of two projects -/

/-- A codec for the tags of notes, which have none. -/
def noTags : TagCodec :=
  ⟨fun _ => "[]", fun text => if text = "[]" then some [] else none⟩

def noteArgs (project content : String) : Json :=
  .object [("category", .string "notes"), ("content", .string content),
    ("project", .string project)]

def noteRow (id project content : String) : MemoryRow :=
  { id, project, category := "notes", content, tags := some "[]", createdAt := "", updatedAt := "" }

/-- The arguments of a note with a vector. -/
def vectorArgs (project content : String) (vector : List F64) : Json :=
  .object [("category", .string "notes"), ("content", .string content),
    ("project", .string project), ("vector", .array (vector.map (fun x => .number (.float x))))]

/-- A state of a file on which no statement fails: its notes and their embeddings, and the ids
issued. -/
def noteState (memories : List MemoryRow) (embeddings : List EmbeddingRow)
    (issued : List String) : MemoryState :=
  ⟨⟨{ MemoryTables.empty with memories := memories, embeddings := embeddings }, []⟩, issued⟩

/-- The embedding of a note, of one number. -/
def unitEmbedding (id memoryId project : String) : EmbeddingRow :=
  (MemoryTools.memoryEmbedding id memoryId project
    [(SingleFloat.ofF64 ⟨0x3ff0000000000000⟩ : F32)]).row

/-- A note may be saved with its embedding, under new ids. -/
theorem reached_noteState {rows : List MemoryRow} {embeddings : List EmbeddingRow}
    {issued : List String} {id embeddingId project content : String}
    (h : Reached F32 noTags (noteState rows embeddings issued))
    (hnew : id ∉ rows.map MemoryRow.id) (hid : id ∉ issued)
    (hembedding : embeddingId ∉ id :: issued)
    (hothers : ∀ row ∈ embeddings, row.id ≠ embeddingId ∧ row.entityId ≠ id) :
  Reached F32 noTags (noteState (rows ++ [noteRow id project content])
    (embeddings ++ [unitEmbedding embeddingId id project]) (embeddingId :: id :: issued))
  := by
  let saved := noteState (rows ++ [noteRow id project content]) embeddings (id :: issued)
  have hinsert : (noteState rows embeddings issued).db.tables.insertMemory
      (noteRow id project content) = .ok ((), saved.db.tables) := if_neg hnew
  have hstatement := @Connection.statement_on _ _
    (MemoryTables.insertMemory (noteRow id project content))
    (noteState rows embeddings issued).db rfl
  rw [hinsert] at hstatement
  let stored := noteState (rows ++ [noteRow id project content])
    (embeddings ++ [unitEmbedding embeddingId id project]) (embeddingId :: id :: issued)
  have hstore : saved.db.tables.replaceEmbedding (unitEmbedding embeddingId id project)
      = stored.db.tables := by
    have hkept : embeddings.filter (fun row => !decide (row.id = embeddingId
        ∨ row.entityType = "memory" ∧ row.entityId = id ∧ row.model = "default")) = embeddings := by
      rw [List.filter_eq_self]
      intro row hrow
      simp [hothers row hrow]
    exact congrArg (fun kept => MemoryTables.mk [] [] []
      (kept ++ [unitEmbedding embeddingId id project]) (rows ++ [noteRow id project content])) hkept
  have hexecute := @Connection.execute_on_ok _
    (MemoryTables.replaceEmbedding (unitEmbedding embeddingId id project)) saved.db rfl
  rw [hstore] at hexecute
  apply h.tail
  use .saveMemory, vectorArgs project content [⟨0x3ff0000000000000⟩],
    .ok (.object [("memory_id", .string id)])
  refine Program.exec_step.mpr ⟨id, _, ⟨hid, rfl⟩, ?_⟩
  refine Program.exec_step.mpr ⟨"", _, rfl, ?_⟩
  refine Program.exec_step.mpr ⟨.ok (), saved, ⟨hstatement, rfl⟩, ?_⟩
  refine Program.exec_step.mpr ⟨embeddingId, _, ⟨hembedding, rfl⟩, ?_⟩
  refine Program.exec_step.mpr ⟨.ok (), stored, ⟨hexecute, rfl⟩, ?_⟩
  apply Program.exec_ret.mpr
  exact ⟨rfl, rfl⟩

/-- Ties are broken by the rows alone, for all queries. -/
noncomputable def chosenOrders : Orders F :=
  ⟨Scan.chosen, Scan.chosen, Scan.chosen, Scan.chosen⟩

theorem sameProject_of_perm {project : String} {tables tables' : MemoryTables}
    (hmemories : (tables.projectMemories project none).Perm (tables'.projectMemories project none))
    (hembeddings : (tables.embeddings.filter (fun row => row.project = project)).Perm
      (tables'.embeddings.filter (fun row => row.project = project)))
    (hsessions : (tables.projectSessions project).Perm (tables'.projectSessions project))
    (hobservations : (tables.projectObservations project none).Perm
      (tables'.projectObservations project none)) :
  SameProject (chosenOrders : Orders F) project tables tables'
  := ⟨Scan.canonical_chosen.agree hmemories, Scan.canonical_chosen.agree hembeddings, hsessions,
    Scan.canonical_chosen.agree hobservations⟩

/-- The note of another project and its embedding are not seen. -/
theorem isolated_notes :
  let alpha := noteState [noteRow "m1" "alpha" "first"] [unitEmbedding "e1" "m1" "alpha"]
    ["e1", "m1"]
  let both := noteState [noteRow "m1" "alpha" "first", noteRow "m2" "beta" "second"]
    [unitEmbedding "e1" "m1" "alpha", unitEmbedding "e2" "m2" "beta"] ["e2", "m2", "e1", "m1"]
  MemoryM.ReadsSame alpha both
    (ProjectRead.getContext.handler SortBy.merge (chosenOrders : Orders F32) noTags
      (.object [("project", .string "alpha"), ("query", .string "first"),
        ("vector", .array [.number (.float ⟨0x3ff0000000000000⟩)])]))
    (fun answer => Within "alpha" alpha.db.tables .getContext answer
      ∧ Within "alpha" both.db.tables .getContext answer)
  := by
  have hnew : Reached F32 noTags (noteState [] [] []) := Relation.ReflTransGen.refl
  have hfirst : Reached F32 noTags (noteState [noteRow "m1" "alpha" "first"]
      [unitEmbedding "e1" "m1" "alpha"] ["e1", "m1"]) :=
    reached_noteState hnew List.not_mem_nil List.not_mem_nil (by decide) nofun
  have hothers : ∀ row ∈ [unitEmbedding "e1" "m1" "alpha"],
      row.id ≠ "e2" ∧ row.entityId ≠ "m2" := by
    intro row hrow
    rw [List.mem_singleton.mp hrow]
    constructor
    · change "e1" ≠ "e2"
      decide
    · change "m1" ≠ "m2"
      decide
  have hsecond : Reached F32 noTags
      (noteState [noteRow "m1" "alpha" "first", noteRow "m2" "beta" "second"]
        [unitEmbedding "e1" "m1" "alpha", unitEmbedding "e2" "m2" "beta"]
        ["e2", "m2", "e1", "m1"]) :=
    reached_noteState hfirst (by decide) (by decide) (by decide) hothers
  apply Reached.isolated hfirst hsecond
  · apply sameProject_of_perm
    · apply List.Perm.refl
    · apply List.Perm.refl
    · apply List.Perm.refl
    · apply List.Perm.refl
  · rfl

end OrchestraRag
