import Mathlib.Algebra.Order.Ring.Unbundled.Rat
import OrchestraRag.Memory.Embeddings
import OrchestraRag.Memory.Storage

/-!
# Hybrid search

`HybridSearch::get_context` merges the memories that a keyword search finds with those whose
embeddings are close to a query vector, ranks them by score and truncates them to a token
budget.  A memory found by its embedding is looked up by its id alone.

On a reliable database the search is the function `MemoryTables.context` of the tables
(`reads_getContext`).
-/

namespace OrchestraRag

open Sql

universe u

/-- A single result of the hybrid search. -/
structure ContextResult (F : Type) where
  id : String
  content : String
  category : String
  score : F
  source : String

/-- The orders that the database and the hash map of the results choose. -/
structure Orders (F : Type) where
  memories : Scan MemoryRow
  embeddings : Scan EmbeddingRow
  observations : Scan ObservationRow
  results : Scan (ContextResult F)

/-- Approximate token count of a text, 4 bytes to a token. -/
def estimateTokens (text : String) : ℕ :=
  (text.utf8ByteSize + 3) / 4

namespace ContextResult

variable {F : Type}

/-! ### The map of results -/

/-- Insert a result in a map of results keyed by their ids. -/
def insert (result : ContextResult F) (resultMap : List (ContextResult F)) :
    List (ContextResult F) :=
  resultMap.filter (fun other => other.id ≠ result.id) ++ [result]

theorem mem_insert {result r : ContextResult F} {resultMap : List (ContextResult F)}
    (h : r ∈ insert result resultMap) :
  r = result ∨ r ∈ resultMap
  := by
  rcases List.mem_append.mp h with h | h
  · apply Or.inr (List.mem_of_mem_filter h)
  · apply Or.inl (List.mem_singleton.mp h)

/-- Every result shows an id, a content and a category that `P` allows. -/
def Shows (P : String → String → String → Prop) (results : List (ContextResult F)) : Prop :=
  ∀ r ∈ results, P r.id r.content r.category

theorem Shows.insert {P : String → String → String → Prop} {resultMap : List (ContextResult F)}
    {result : ContextResult F} (h : Shows P resultMap)
    (hresult : P result.id result.content result.category) :
  Shows P (result.insert resultMap)
  := by
  intro r hr
  rcases mem_insert hr with rfl | hr
  · apply hresult
  · apply h r hr

/-- Insert entries one after another. -/
def insertAll (results resultMap : List (ContextResult F)) : List (ContextResult F) :=
  results.foldl (fun resultMap result => insert result resultMap) resultMap

theorem Shows.insertAll {P : String → String → String → Prop}
    {results resultMap : List (ContextResult F)} (h : Shows P resultMap)
    (hresults : Shows P results) :
  Shows P (insertAll results resultMap)
  := by
  induction results generalizing resultMap with
  | nil => apply h
  | cons result results ih =>
      apply ih
      · apply h.insert (hresults result List.mem_cons_self)
      · intro r hr
        apply hresults r (List.mem_cons_of_mem _ hr)

section Merge

variable [SingleFloat F]

open SingleFloat

/-- The score of the `i`-th of `count` keyword results: `1` for the first, decaying. -/
def keywordScore (i count : ℕ) : F :=
  if 0 < count then ofRat 1 - ofRat i / ofRat (max count 1) * ofRat (1 / 2) else ofRat 0

/-- The map of the keyword results. -/
def ofKeywords (memories : List Memory) : List (ContextResult F) :=
  memories.zipIdx.foldl
    (fun resultMap (mem, i) => insert
      { id := mem.id, content := mem.content, category := mem.category,
        score := keywordScore i memories.length, source := "keyword" } resultMap)
    []

variable {m : Type → Type u} [Monad m] (lookup : String → m (Except String (Option Memory)))

/-- Merge the entities of a vector search into a map of results.  A memory that is not in the
map is looked up; when that fails or finds nothing it is left out. -/
def mergeVectors (resultMap : List (ContextResult F)) :
    List (String × String × F) → m (List (ContextResult F))
  | [] => pure resultMap
  | (entityType, entityId, similarity) :: entities =>
      if entityType ≠ "memory" then mergeVectors resultMap entities
      else
        match resultMap.find? (fun result => result.id = entityId) with
        | some existing =>
            mergeVectors
              (insert
                { existing with
                  score := (existing.score + similarity) / ofRat 2, source := "hybrid" }
                resultMap)
              entities
        | none => do
            match ← lookup entityId with
            | .ok (some mem) =>
                mergeVectors
                  (insert
                    { id := entityId, content := mem.content, category := mem.category,
                      score := similarity, source := "vector" }
                    resultMap)
                  entities
            | _ => mergeVectors resultMap entities

/-! ### What a merge shows -/

/-- The entry of a memory at its rank among the `n` that a keyword search found. -/
def ofKeyword (n : ℕ) (found : Memory × ℕ) : ContextResult F where
  id := found.1.id
  content := found.1.content
  category := found.1.category
  score := keywordScore found.2 n
  source := "keyword"

theorem ofKeywords_eq (memories : List Memory) :
  (ofKeywords memories : List (ContextResult F))
    = insertAll (memories.zipIdx.map (ofKeyword memories.length)) []
  := by
  rw [insertAll, List.foldl_map]
  rfl

/-- The keyword results show what the memories found hold. -/
theorem shows_ofKeywords {P : String → String → String → Prop} {memories : List Memory}
    (h : ∀ mem ∈ memories, P mem.id mem.content mem.category) :
  Shows P (ofKeywords memories : List (ContextResult F))
  := by
  rw [ofKeywords_eq]
  apply Shows.insertAll
  · intro r hr
    cases hr
  · intro r hr
    obtain ⟨⟨mem, i⟩, hfound, rfl⟩ := List.mem_map.mp hr
    apply h mem (List.mem_of_getElem? (List.mk_mem_zipIdx_iff_getElem?.mp hfound))

section Lookup

variable {find find' : String → Except String (Option Memory)} {resultMap : List (ContextResult F)}
  {entities : List (String × String × F)}

/-- What merging an entity does to a map, when `found` is what a lookup of the entity finds: the
entity is skipped, or its entry is replaced, or one is added that was not there. -/
inductive Merges (found : Except String (Option Memory)) (e : String × String × F)
    (resultMap : List (ContextResult F)) : List (ContextResult F) → Prop
  | skipped : Merges found e resultMap resultMap
  | hybrid {existing : ContextResult F} : existing ∈ resultMap →
      Merges found e resultMap
        (insert
          { existing with score := (existing.score + e.2.2) / ofRat 2, source := "hybrid" }
          resultMap)
  | vector {mem : Memory} : e.1 = "memory" → (∀ r ∈ resultMap, r.id ≠ e.2.1) →
      found = .ok (some mem) →
      Merges found e resultMap
        (insert
          { id := e.2.1, content := mem.content, category := mem.category, score := e.2.2,
            source := "vector" }
          resultMap)

omit [SingleFloat F] in
theorem ne_of_find?_eq_none {id : String}
    (h : resultMap.find? (fun result => result.id = id) = none) :
  ∀ r ∈ resultMap, r.id ≠ id
  := by
  intro r hr hid
  apply List.find?_eq_none.mp h r hr (decide_eq_true hid)

/-- A merge does one entity after another. -/
theorem mergeVectors_cons (find : String → Except String (Option Memory))
    (resultMap : List (ContextResult F)) (e : String × String × F)
    (entities : List (String × String × F)) :
  ∃ resultMap', Merges (find e.2.1) e resultMap resultMap'
    ∧ mergeVectors (m := Id) find resultMap (e :: entities)
      = mergeVectors (m := Id) find resultMap' entities
  := by
  obtain ⟨entityType, entityId, similarity⟩ := e
  rw [mergeVectors]
  split
  · exact ⟨_, Merges.skipped, rfl⟩
  · rename_i htype
    cases hexisting : resultMap.find? (fun result => result.id = entityId) with
    | some existing => exact ⟨_, Merges.hybrid (List.mem_of_find?_eq_some hexisting), rfl⟩
    | none =>
        have habsent := ne_of_find?_eq_none hexisting
        simp only [bind]
        rcases hfound : find entityId with err | (_ | mem)
        · exact ⟨_, Merges.skipped, rfl⟩
        · exact ⟨_, Merges.skipped, rfl⟩
        · exact ⟨_, Merges.vector (not_not.mp htype) habsent rfl, rfl⟩

/-- A merge whose lookups are programs does one entity after another. -/
theorem runs_mergeVectors_cons {lookup : String → MemoryM (Except String (Option Memory))}
    {e : String × String × F} {merged : List (ContextResult F)} {s s' : MemoryState}
    (h : (mergeVectors lookup resultMap (e :: entities)).Runs s (.ok merged) s') :
  ∃ found resultMap' s₁, Merges found e resultMap resultMap'
    ∧ (mergeVectors lookup resultMap' entities).Runs s₁ (.ok merged) s'
  := by
  obtain ⟨entityType, entityId, similarity⟩ := e
  rw [mergeVectors] at h
  split at h
  · exact ⟨.ok none, _, s, Merges.skipped, h⟩
  · rename_i htype
    cases hexisting : resultMap.find? (fun result => result.id = entityId) with
    | some existing =>
        rw [hexisting] at h
        exact ⟨.ok none, _, s, Merges.hybrid (List.mem_of_find?_eq_some hexisting), h⟩
    | none =>
        have habsent := ne_of_find?_eq_none hexisting
        rw [hexisting] at h
        rcases Program.exec_fallible_bind.mp h with ⟨found, s₁, -, hrest⟩ | ⟨e, he, -⟩
        · rcases found with err | (_ | mem)
          · exact ⟨.ok none, _, s₁, Merges.skipped, hrest⟩
          · exact ⟨.ok none, _, s₁, Merges.skipped, hrest⟩
          · exact ⟨_, _, s₁, Merges.vector (not_not.mp htype) habsent rfl, hrest⟩
        · cases he

/-- A merge shows what the map shows, and what the memories it looks up hold. -/
theorem shows_mergeVectors {P : String → String → String → Prop} (h : Shows P resultMap)
    (hfind : ∀ e ∈ entities, e.1 = "memory" → ∀ mem, find e.2.1 = .ok (some mem) →
      P e.2.1 mem.content mem.category) :
  Shows P (mergeVectors (m := Id) find resultMap entities)
  := by
  induction entities generalizing resultMap with
  | nil => apply h
  | cons e entities ih =>
      obtain ⟨resultMap', hmerges, hcons⟩ := mergeVectors_cons find resultMap e entities
      rw [hcons]
      apply ih
      · cases hmerges with
        | skipped => apply h
        | hybrid hexisting =>
            apply h.insert
            apply h _ hexisting
        | vector htype _ hfound =>
            apply h.insert
            apply hfind e List.mem_cons_self htype _ hfound
      · intro e' he'
        apply hfind e' (List.mem_cons_of_mem _ he')

/-- Only the memories that the entities name are looked up. -/
theorem mergeVectors_congr (h : ∀ e ∈ entities, e.1 = "memory" → find e.2.1 = find' e.2.1) :
  mergeVectors (m := Id) find resultMap entities = mergeVectors (m := Id) find' resultMap entities
  := by
  induction entities generalizing resultMap with
  | nil => rfl
  | cons e entities ih =>
      obtain ⟨entityType, entityId, similarity⟩ := e
      have hrest := fun resultMap => @ih resultMap (fun e he => h e (List.mem_cons_of_mem _ he))
      simp only [mergeVectors, hrest]
      split
      · rfl
      · rename_i htype
        rw [h _ List.mem_cons_self (not_not.mp htype)]

/-- A merge whose lookups only read only reads. -/
theorem reads_mergeVectors {s : MemoryState}
    {lookup : String → MemoryM (Except String (Option Memory))}
    (h : ∀ id, MemoryM.Reads s (lookup id) (.ok (find id))) :
  MemoryM.Reads s (mergeVectors lookup resultMap entities)
    (.ok (mergeVectors (m := Id) find resultMap entities))
  := by
  induction entities generalizing resultMap with
  | nil => apply MemoryM.reads_pure
  | cons e entities ih =>
      obtain ⟨entityType, entityId, similarity⟩ := e
      rw [mergeVectors, mergeVectors]
      split
      · apply ih
      · cases resultMap.find? (fun result => result.id = entityId) with
        | some existing => apply ih
        | none =>
            apply (h entityId).bind
            simp only [bind]
            rcases find entityId with err | (_ | mem)
            · apply ih
            · apply ih
            · apply ih

end Lookup

end Merge

/-! ### The token budget -/

/-- Truncate results to a token budget, but never to less than one; `tokens` are used by those
taken already. -/
def truncate (budget tokens : ℕ) (truncated : List (ContextResult F)) :
    List (ContextResult F) → List (ContextResult F) × ℕ
  | [] => (truncated, tokens)
  | result :: results =>
      let resultTokens := estimateTokens result.content
      if budget < tokens + resultTokens ∧ truncated ≠ [] then (truncated, tokens)
      else truncate budget (tokens + resultTokens) (truncated ++ [result]) results

theorem mem_truncate {budget tokens : ℕ} {truncated results : List (ContextResult F)}
    {r : ContextResult F} (h : r ∈ (truncate budget tokens truncated results).1) :
  r ∈ truncated ∨ r ∈ results
  := by
  induction results generalizing tokens truncated with
  | nil => exact Or.inl h
  | cons result results ih =>
      rw [truncate] at h
      split at h
      · apply Or.inl h
      · rcases ih h with h | h
        · rcases List.mem_append.mp h with h | h
          · apply Or.inl h
          · obtain rfl := List.mem_singleton.mp h
            apply Or.inr List.mem_cons_self
        · apply Or.inr (List.mem_cons_of_mem _ h)

section Ranked

variable [SingleFloat F]

/-- Rank the results of a map by their scores and truncate them to a token budget. -/
def ranked (sorting : SortBy) (orders : Orders F) (budget : ℕ)
    (resultMap : List (ContextResult F)) : List (ContextResult F) × ℕ :=
  truncate budget 0 []
    (sorting.sort (fun a b => byScore a.score b.score) (orders.results.order resultMap))

theorem mem_ranked {sorting : SortBy} {orders : Orders F} {budget : ℕ}
    {resultMap : List (ContextResult F)} {r : ContextResult F}
    (h : r ∈ (ranked sorting orders budget resultMap).1) :
  r ∈ resultMap
  := by
  rcases mem_truncate h with h | h
  · cases h
  · apply (orders.results.perm resultMap).mem_iff.mp (SortBy.mem_sort.mp h)

end Ranked

end ContextResult

/-! ### The search -/

section Search

variable {F : Type} [SingleFloat F] (sorting : SortBy) (orders : Orders F) (codec : TagCodec)

namespace HybridSearch

/-- Get relevant context for a query within a token budget. -/
def getContext (project query : String) (vector : Option (List F)) (budget : ℕ)
    (category : Option String) : MemoryM (List (ContextResult F) × ℕ) := do
  let fetchLimit := max budget 20
  let keywordResults ←
    MemoryStorage.searchMemoriesKeyword orders.memories codec project query category fetchLimit
  let resultMap := ContextResult.ofKeywords keywordResults
  match vector with
  | none => pure (ContextResult.ranked sorting orders budget resultMap)
  | some queryVec => do
      let vectorResults ← EmbeddingStore.searchSimilar sorting orders.embeddings project queryVec
        "default" fetchLimit
      let resultMap ← ContextResult.mergeVectors
        (fun id => (MemoryStorage.getMemory orders.memories codec id).result)
        resultMap vectorResults
      pure (ContextResult.ranked sorting orders budget resultMap)

end HybridSearch

namespace MemoryTables

/-- The map of the results that a search merges, from the memories its keywords find. -/
def resultMap (project : String) (vector : Option (List F)) (limit : ℕ) (tables : MemoryTables)
    (rows : List MemoryRow) : List (ContextResult F) :=
  let keywords := ContextResult.ofKeywords (rows.map (memoryFromRow codec))
  match vector with
  | none => keywords
  | some queryVec => ContextResult.mergeVectors (m := Id)
      (fun id => .ok ((tables.memoryRow orders.memories id).map (memoryFromRow codec))) keywords
      (tables.similarEntities sorting orders.embeddings project queryVec "default" limit)

/-- The context that a search finds in the tables. -/
def context (project query : String) (vector : Option (List F)) (budget : ℕ)
    (category : Option String) (tables : MemoryTables) :
    Except String (List (ContextResult F) × ℕ) :=
  let fetchLimit := max budget 20
  ((tables.keywordRows orders.memories project query category fetchLimit).map (fun rows =>
    ContextResult.ranked sorting orders budget
      (tables.resultMap sorting orders codec project vector fetchLimit rows))).mapError
    ("SQLite error: " ++ ·)

end MemoryTables

theorem HybridSearch.reads_getContext {s : MemoryState} (h : s.db.Reliable)
    (project query : String) (vector : Option (List F)) (budget : ℕ) (category : Option String) :
  MemoryM.Reads s (getContext sorting orders codec project query vector budget category)
    (s.db.tables.context sorting orders codec project query vector budget category)
  := by
  have hkeywords := MemoryStorage.reads_searchMemoriesKeyword orders.memories codec h project query
    category (max budget 20)
  rw [getContext, MemoryTables.context]
  cases hrows : s.db.tables.keywordRows orders.memories project query category (max budget 20) with
  | error e =>
      rw [hrows] at hkeywords
      apply hkeywords.bind_error
  | ok rows =>
      rw [hrows] at hkeywords
      apply hkeywords.bind
      cases vector with
      | none => apply MemoryM.reads_pure
      | some queryVec =>
          apply (EmbeddingStore.reads_searchSimilar sorting orders.embeddings h _ _ _ _).bind
          have hlookup := fun id => (MemoryStorage.reads_getMemory orders.memories codec h id).result
          apply (ContextResult.reads_mergeVectors hlookup).bind
          apply MemoryM.reads_pure

end Search

end OrchestraRag
