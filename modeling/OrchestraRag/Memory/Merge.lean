import Mathlib.Algebra.Order.Field.Basic
import Mathlib.Algebra.Order.Ring.Rat
import Mathlib.Data.Rat.Cast.CharZero
import Mathlib.Data.Rat.Sqrt
import Mathlib.Tactic.FieldSimp
import Mathlib.Tactic.Linarith
import OrchestraRag.Memory.Budget
import OrchestraRag.Memory.Keyed

/-!
# What a search merges

The map of results, as what it holds under an id: the entry of a keyword result, averaged with
the similarity of its embedding when there is one, or the entry of a memory that only its
embedding found (`merged_exactly`).  The scores are exact: they have values in an ordered field.
-/

namespace OrchestraRag

open Sql

/-- Scores with exact arithmetic: operations and comparisons are those of their values. -/
class ExactFloat (F : Type) [SingleFloat F] (K : outParam Type) [Field K] [LinearOrder K] where
  value : F → K
  value_add : ∀ a b : F, value (a + b) = value a + value b
  value_sub : ∀ a b : F, value (a - b) = value a - value b
  value_mul : ∀ a b : F, value (a * b) = value a * value b
  value_div : ∀ a b : F, value (a / b) = value a / value b
  value_ofRat : ∀ q : ℚ, value (SingleFloat.ofRat q : F) = q
  partialCmp_eq : ∀ a b : F, SingleFloat.partialCmp a b = some (compare (value a) (value b))

namespace ContextResult

variable {F : Type}

/-! ### Maps of results as functions of ids -/

/-- What a map of results holds under an id. -/
def entry (resultMap : List (ContextResult F)) (id : String) : Option (ContextResult F) :=
  resultMap.find? (fun result => result.id = id)

theorem entry_insert {result : ContextResult F} {resultMap : List (ContextResult F)}
    {id : String} :
  entry (result.insert resultMap) id = if id = result.id then some result else entry resultMap id
  := by
  rw [entry, insert, List.find?_append, List.find?_filter, entry]
  by_cases hid : id = result.id
  · have hnone : resultMap.find? (fun _ => false) = none := by
      apply List.find?_eq_none.mpr
      intro other _
      apply Bool.false_ne_true
    rw [if_pos hid, hid]
    simp [hnone]
  · have hsame : (fun other : ContextResult F => decide (decide (other.id ≠ result.id) = true
        ∧ decide (other.id = id) = true)) = fun other => decide (other.id = id) := by
      funext other
      by_cases hother : other.id = id
      · simp [hother, hid]
      · simp [hother]
    rw [if_neg hid, hsame, List.find?_singleton, if_neg, Option.or_none]
    simp [Ne.symm hid]

theorem id_of_entry {resultMap : List (ContextResult F)} {id : String} {r : ContextResult F}
    (h : entry resultMap id = some r) :
  r.id = id
  := of_decide_eq_true (List.find?_some
    (p := fun result : ContextResult F => decide (result.id = id)) h)

/-- A map whose ids are distinct holds each of its results under its id. -/
theorem mem_iff_entry {resultMap : List (ContextResult F)} (h : (ids resultMap).Nodup)
    {r : ContextResult F} :
  r ∈ resultMap ↔ entry resultMap r.id = some r
  := by
  constructor
  · intro hr
    cases hentry : entry resultMap r.id with
    | none => cases List.find?_eq_none.mp hentry r hr (decide_eq_true rfl)
    | some r' =>
        rw [List.inj_on_of_nodup_map h (List.mem_of_find?_eq_some hentry) hr (id_of_entry hentry)]
  · apply List.mem_of_find?_eq_some

theorem entry_eq_none_iff {resultMap : List (ContextResult F)} {id : String} :
  entry resultMap id = none ↔ id ∉ ids resultMap
  := by
  rw [mem_ids, entry, List.find?_eq_none]
  simp

/-- Insertions of results with new, distinct ids append them. -/
theorem insertAll_of_nodup {results resultMap : List (ContextResult F)}
    (h : (ids (resultMap ++ results)).Nodup) :
  insertAll results resultMap = resultMap ++ results
  := by
  induction results generalizing resultMap with
  | nil => exact (List.append_nil resultMap).symm
  | cons result results ih =>
      have hnew : ∀ other ∈ resultMap, other.id ≠ result.id := by
        intro other hother
        rw [ids, List.map_append, List.nodup_append] at h
        apply h.2.2 _ (List.mem_map_of_mem hother) _ List.mem_cons_self
      have hinsert : result.insert resultMap = resultMap ++ [result] := by
        rw [insert, List.filter_eq_self.mpr]
        intro other hother
        apply decide_eq_true (hnew other hother)
      rw [← List.singleton_append, ← List.append_assoc] at h
      have hrest := ih h
      rw [List.append_assoc, List.singleton_append] at hrest
      rw [← hrest, ← hinsert]
      rfl

/-! ### Similarities -/

/-- The similarity of a memory, when a vector search found it. -/
def similarity (entities : List (String × String × F)) (id : String) : Option F :=
  (entities.find? (fun e => e.1 = "memory" ∧ e.2.1 = id)).map (fun e => e.2.2)

theorem similarity_cons {e : String × String × F} {entities : List (String × String × F)}
    {id : String} :
  similarity (e :: entities) id
    = if e.1 = "memory" ∧ e.2.1 = id then some e.2.2 else similarity entities id
  := by
  rw [similarity, List.find?_cons]
  split
  · rename_i he
    rw [if_pos (of_decide_eq_true he)]
    rfl
  · rename_i he
    rw [if_neg (of_decide_eq_false he)]
    rfl

/-- No entity is found twice. -/
def Distinct (entities : List (String × String × F)) : Prop :=
  (entities.map (fun e => (e.1, e.2.1))).Nodup

theorem similarity_eq_some_iff {entities : List (String × String × F)} (h : Distinct entities)
    {id : String} {σ : F} :
  similarity entities id = some σ ↔ ("memory", id, σ) ∈ entities
  := by
  rw [similarity, Option.map_eq_some_iff]
  constructor
  · rintro ⟨⟨entityType, entityId, σ'⟩, hfind, rfl⟩
    obtain ⟨rfl, rfl⟩ := of_decide_eq_true (List.find?_some
      (p := fun e : String × String × F => decide (e.1 = "memory" ∧ e.2.1 = id)) hfind)
    apply List.mem_of_find?_eq_some hfind
  · intro hmem
    cases hfind : entities.find? (fun e => e.1 = "memory" ∧ e.2.1 = id) with
    | none => cases List.find?_eq_none.mp hfind _ hmem (decide_eq_true ⟨rfl, rfl⟩)
    | some e =>
        obtain ⟨htype, hid⟩ := of_decide_eq_true (List.find?_some
          (p := fun e : String × String × F => decide (e.1 = "memory" ∧ e.2.1 = id)) hfind)
        have heq := List.inj_on_of_nodup_map h (List.mem_of_find?_eq_some hfind) hmem
          (Prod.ext htype hid)
        use e, rfl
        rw [heq]

theorem similarity_eq_none_iff {entities : List (String × String × F)} {id : String} :
  similarity entities id = none ↔ ∀ σ, ("memory", id, σ) ∉ entities
  := by
  rw [similarity, Option.map_eq_none_iff, List.find?_eq_none]
  constructor
  · intro h σ hmem
    apply h _ hmem
    simp
  · rintro h ⟨entityType, entityId, σ⟩ hmem he
    obtain ⟨rfl, rfl⟩ := of_decide_eq_true he
    apply h σ hmem

/-! ### The merge as a function of ids -/

section Merge

variable [SingleFloat F]

open SingleFloat

/-- What becomes of the entry of a memory whose embedding was found. -/
def combine (found : Except String (Option Memory)) (id : String) (σ : F) :
    Option (ContextResult F) → Option (ContextResult F)
  | some existing =>
      some { existing with score := (existing.score + σ) / ofRat 2, source := "hybrid" }
  | none =>
      match found with
      | .ok (some mem) =>
          some
            { id := id, content := mem.content, category := mem.category, score := σ,
              source := "vector" }
      | _ => none

variable {find : String → Except String (Option Memory)} {resultMap : List (ContextResult F)}
  {entities : List (String × String × F)}

/-- A merge of one more entity changes what the map holds under the id of the entity. -/
theorem entry_mergeVectors_cons (e : String × String × F)
    (entities : List (String × String × F)) :
  ∃ resultMap', mergeVectors (m := Id) find resultMap (e :: entities)
      = mergeVectors (m := Id) find resultMap' entities
    ∧ ∀ id, entry resultMap' id
      = if e.1 = "memory" ∧ e.2.1 = id then combine (find id) id e.2.2 (entry resultMap id)
        else entry resultMap id
  := by
  obtain ⟨entityType, entityId, σ⟩ := e
  rw [mergeVectors]
  split
  · rename_i htype
    use resultMap, rfl
    intro id
    rw [if_neg (fun h => htype h.1)]
  · rename_i htype
    have hskip : ∀ {id : String}, entityId ≠ id →
        ¬ (entityType = "memory" ∧ entityId = id) := fun hne h => hne h.2
    have hheld : resultMap.find? (fun result => result.id = entityId) = entry resultMap entityId :=
      rfl
    rw [hheld]
    cases hentry : entry resultMap entityId with
    | some existing =>
        refine ⟨_, rfl, ?_⟩
        intro id
        rw [entry_insert]
        dsimp only
        by_cases hid : entityId = id
        · subst hid
          rw [if_pos (id_of_entry hentry).symm, if_pos ⟨not_not.mp htype, rfl⟩, hentry]
          rfl
        · rw [if_neg, if_neg (hskip hid)]
          rw [id_of_entry hentry]
          apply Ne.symm hid
    | none =>
        simp only [bind]
        rcases hfound : find entityId with err | (_ | mem)
        · use resultMap, rfl
          intro id
          by_cases hid : entityId = id
          · subst hid
            rw [if_pos ⟨not_not.mp htype, rfl⟩, hentry, hfound]
            rfl
          · rw [if_neg (hskip hid)]
        · use resultMap, rfl
          intro id
          by_cases hid : entityId = id
          · subst hid
            rw [if_pos ⟨not_not.mp htype, rfl⟩, hentry, hfound]
            rfl
          · rw [if_neg (hskip hid)]
        · refine ⟨_, rfl, ?_⟩
          intro id
          rw [entry_insert]
          by_cases hid : entityId = id
          · subst hid
            rw [if_pos rfl, if_pos ⟨not_not.mp htype, rfl⟩, hentry, hfound]
            rfl
          · rw [if_neg (Ne.symm hid), if_neg (hskip hid)]

/-- What a merged map holds under an id. -/
theorem entry_mergeVectors (h : Distinct entities) (id : String) :
  entry (mergeVectors (m := Id) find resultMap entities) id
    = (similarity entities id).elim (entry resultMap id)
        (fun σ => combine (find id) id σ (entry resultMap id))
  := by
  induction entities generalizing resultMap with
  | nil => rfl
  | cons e entities ih =>
      obtain ⟨hnew, hrest⟩ := List.nodup_cons.mp h
      obtain ⟨resultMap', hcons, hentry⟩ :=
        @entry_mergeVectors_cons F _ find resultMap e entities
      rw [hcons, ih hrest, hentry id, similarity_cons]
      by_cases he : e.1 = "memory" ∧ e.2.1 = id
      · rw [if_pos he, if_pos he]
        have hnone : similarity entities id = none := by
          apply similarity_eq_none_iff.mpr
          intro σ hσ
          apply hnew
          dsimp only
          rw [he.1, he.2]
          exact List.mem_map_of_mem (f := fun e : String × String × F => (e.1, e.2.1)) hσ
        rw [hnone]
        rfl
      · rw [if_neg he, if_neg he]

/-! ### The entries of a merge -/

/-- The keyword results of distinct memories, one entry for each. -/
theorem ofKeywords_of_nodup {memories : List Memory} (h : (memories.map Memory.id).Nodup) :
  (ofKeywords memories : List (ContextResult F))
    = memories.zipIdx.map (ofKeyword memories.length)
  := by
  have hids : ids ([] ++ memories.zipIdx.map (ofKeyword memories.length) : List (ContextResult F))
      = memories.map Memory.id := by
    rw [List.nil_append, ids, List.map_map]
    calc memories.zipIdx.map (ContextResult.id ∘ @ofKeyword F _ memories.length)
        = (memories.zipIdx.map Prod.fst).map Memory.id := by
          rw [List.map_map]
          rfl
      _ = memories.map Memory.id := by rw [List.zipIdx_map_fst]
  rw [ofKeywords_eq, insertAll_of_nodup (by rw [hids]; apply h), List.nil_append]

/-- What the map of keyword results holds under an id. -/
theorem entry_ofKeywords {memories : List Memory} (h : (memories.map Memory.id).Nodup)
    {r : ContextResult F} {id : String} :
  entry (ofKeywords memories) id = some r ↔ ∃ i mem, memories[i]? = some mem ∧ mem.id = id
    ∧ r = ofKeyword memories.length (mem, i)
  := by
  constructor
  · intro hentry
    have hr := List.mem_of_find?_eq_some hentry
    rw [ofKeywords_of_nodup h] at hr
    obtain ⟨⟨mem, i⟩, hfound, rfl⟩ := List.mem_map.mp hr
    use i, mem, List.mk_mem_zipIdx_iff_getElem?.mp hfound, id_of_entry hentry
  · rintro ⟨i, mem, hmem, rfl, rfl⟩
    have hr : ofKeyword memories.length (mem, i) ∈ (ofKeywords memories : List (ContextResult F)) := by
      rw [ofKeywords_of_nodup h]
      apply List.mem_map_of_mem
      apply List.mk_mem_zipIdx_iff_getElem?.mpr hmem
    apply (mem_iff_entry (nodup_ofKeywords memories)).mp hr

end Merge

section Exact

variable [SingleFloat F] {K : Type} [Field K] [LinearOrder K] [IsStrictOrderedRing K]
  [ExactFloat F K]

open ExactFloat

/-- A result with the value of its score. -/
def exact (r : ContextResult F) : ContextResult K where
  id := r.id
  content := r.content
  category := r.category
  score := value r.score
  source := r.source

/-- The score of the `i`-th of `n` keyword results. -/
theorem value_keywordScore {i n : ℕ} (h : i < n) :
  value (keywordScore i n : F) = 1 - (i : K) / (2 * n)
  := by
  have hone : (1 : K) ≤ n := by
    have hpos : 1 ≤ n := by omega
    exact_mod_cast hpos
  rw [keywordScore, if_pos (by omega), value_sub, value_mul, value_div, value_ofRat, value_ofRat,
    value_ofRat, value_ofRat]
  push_cast
  rw [max_eq_left hone, mul_one_div, div_div, mul_comm (n : K)]

/-- The entries that a search has to merge from the rows that its keywords find, the entities
that its vector finds, and the table of memories. -/
inductive MergedEntry (rows : List MemoryRow) (entities : List (String × String × F))
    (memories : List MemoryRow) : ContextResult K → Prop
  | keyword {i : ℕ} {row : MemoryRow} : rows[i]? = some row →
      (∀ σ, ("memory", row.id, σ) ∉ entities) →
      MergedEntry rows entities memories
        { id := row.id, content := row.content, category := row.category,
          score := 1 - i / (2 * rows.length), source := "keyword" }
  | hybrid {i : ℕ} {row : MemoryRow} {σ : F} : rows[i]? = some row →
      ("memory", row.id, σ) ∈ entities →
      MergedEntry rows entities memories
        { id := row.id, content := row.content, category := row.category,
          score := (1 - i / (2 * rows.length) + value σ) / 2, source := "hybrid" }
  | vector {row : MemoryRow} {σ : F} : row ∈ memories → row.id ∉ rows.map MemoryRow.id →
      ("memory", row.id, σ) ∈ entities →
      MergedEntry rows entities memories
        { id := row.id, content := row.content, category := row.category, score := value σ,
          source := "vector" }

end Exact

end ContextResult

/-! ### The search -/

namespace MemoryTables

/-- The constraints of the tables: the ids of memories are distinct, and so are the entities and
models of embeddings. -/
structure Unique (tables : MemoryTables) : Prop where
  memories : (tables.memories.map MemoryRow.id).Nodup
  embeddings : (tables.embeddings.map EmbeddingRow.key).Nodup

section Search

variable {F : Type} [SingleFloat F] (sorting : SortBy) (orders : Orders F) (codec : TagCodec)

/-- The entities that a search finds for its vector, if it has one. -/
def vectorEntities (project : String) (vector : Option (List F)) (limit : ℕ)
    (tables : MemoryTables) : List (String × String × F) :=
  match vector with
  | none => []
  | some queryVec =>
      tables.similarEntities sorting orders.embeddings project queryVec "default" limit

variable {sorting orders codec} {project : String} {vector : Option (List F)} {limit : ℕ}
  {tables : MemoryTables} {rows : List MemoryRow}

theorem resultMap_eq_mergeVectors :
  tables.resultMap sorting orders codec project vector limit rows
    = ContextResult.mergeVectors (m := Id)
      (fun id => .ok ((tables.memoryRow orders.memories id).map (memoryFromRow codec)))
      (ContextResult.ofKeywords (rows.map (memoryFromRow codec)))
      (tables.vectorEntities sorting orders project vector limit)
  := by
  cases vector with
  | none => rfl
  | some queryVec => rfl

/-- An entity has one embedding for a model, so no search finds it twice. -/
theorem distinct_vectorEntities (h : tables.Unique) :
  ContextResult.Distinct (tables.vectorEntities sorting orders project vector limit)
  := by
  cases vector with
  | none => apply List.nodup_nil
  | some queryVec =>
      have hrows : ((tables.projectEmbeddings project "default").map
          (fun row => (row.entityType, row.entityId))).Nodup := by
        have hkeys : ((tables.projectEmbeddings project "default").map EmbeddingRow.key).Nodup :=
          h.embeddings.sublist (List.filter_sublist.map _)
        apply List.Nodup.map_on
        · intro row hrow row' hrow' heq
          obtain ⟨htype, hid⟩ := Prod.mk.inj heq
          have hmodel := (of_decide_eq_true (List.mem_filter.mp hrow).2).2
          have hmodel' := (of_decide_eq_true (List.mem_filter.mp hrow').2).2
          apply List.inj_on_of_nodup_map hkeys hrow hrow'
          rw [EmbeddingRow.key, EmbeddingRow.key, htype, hid, hmodel, hmodel']
        · apply List.Nodup.of_map _ hkeys
      apply List.Nodup.sublist ((List.take_sublist _ _).map _)
      rw [((sorting.perm _ _).map _).nodup_iff, List.map_map]
      apply ((orders.embeddings.perm _).map _).nodup_iff.mpr hrows

omit [SingleFloat F] in
/-- What a keyword search finds is part of the table, no row twice. -/
theorem keywordRows_subperm {query : String} {category : Option String}
    (h : tables.keywordRows orders.memories project query category limit = .ok rows) :
  rows.Subperm tables.memories
  := by
  obtain ⟨selected, hselected, hrows⟩ := keywordRows_eq_limit h
  have hsorted := orders.memories.perm_orderBy byUpdatedAt selected
  have hlimit := limit_sublist (asI64 limit) (orders.memories.orderBy byUpdatedAt selected)
  rw [hrows]
  apply hlimit.subperm.trans (hsorted.subperm.trans hselected.subperm)

omit [SingleFloat F] in
/-- No id is found twice. -/
theorem nodup_keywordRows {query : String} {category : Option String}
    (h : (tables.memories.map MemoryRow.id).Nodup)
    (hrows : tables.keywordRows orders.memories project query category limit = .ok rows) :
  (rows.map MemoryRow.id).Nodup
  := by
  obtain ⟨rows', hperm, hsublist⟩ := keywordRows_subperm hrows
  apply (hperm.map _).nodup_iff.mp (h.sublist (hsublist.map _))

omit [SingleFloat F] in
/-- The row that a lookup finds under an id. -/
theorem memoryRow_eq_some_iff {id : String} {row : MemoryRow} (h : tables.Unique)
    (scan : Scan MemoryRow) :
  tables.memoryRow scan id = some row ↔ row ∈ tables.memories ∧ row.id = id
  := by
  have hmem : ∀ other, other ∈ tables.memories.filter (fun row => row.id = id)
      ↔ other ∈ tables.memories ∧ other.id = id := by
    intro other
    rw [List.mem_filter, decide_eq_true_iff]
  rw [memoryRow, scan.head?_order, hmem]
  intro a ha b hb
  obtain ⟨ha, haid⟩ := (hmem a).mp ha
  obtain ⟨hb, hbid⟩ := (hmem b).mp hb
  apply List.inj_on_of_nodup_map h.memories ha hb (haid.trans hbid.symm)

/-- What the map of results holds under an id. -/
theorem entry_resultMap (h : tables.Unique) (id : String) :
  ContextResult.entry (tables.resultMap sorting orders codec project vector limit rows) id
    = (ContextResult.similarity (tables.vectorEntities sorting orders project vector limit) id).elim
        (ContextResult.entry (ContextResult.ofKeywords (rows.map (memoryFromRow codec))) id)
        (fun σ => ContextResult.combine
          (.ok ((tables.memoryRow orders.memories id).map (memoryFromRow codec))) id σ
          (ContextResult.entry (ContextResult.ofKeywords (rows.map (memoryFromRow codec))) id))
  := by
  rw [resultMap_eq_mergeVectors, ContextResult.entry_mergeVectors (distinct_vectorEntities h)]

/-- The entry of a row that the keywords find. -/
theorem entry_ofRows (h : (rows.map MemoryRow.id).Nodup) {i : ℕ} {row : MemoryRow}
    (hrow : rows[i]? = some row) :
  ContextResult.entry (ContextResult.ofKeywords (F := F) (rows.map (memoryFromRow codec))) row.id
    = some (ContextResult.ofKeyword rows.length (memoryFromRow codec row, i))
  := by
  have hids : ((rows.map (memoryFromRow codec)).map Memory.id).Nodup := by
    rw [List.map_map]
    apply h
  apply (ContextResult.entry_ofKeywords hids).mpr
  use i, memoryFromRow codec row
  rw [List.getElem?_map, hrow, List.length_map]
  exact ⟨rfl, rfl, rfl⟩

theorem entry_ofRows_none {id : String} (h : id ∉ rows.map MemoryRow.id) :
  ContextResult.entry (ContextResult.ofKeywords (F := F) (rows.map (memoryFromRow codec))) id
    = none
  := by
  rw [ContextResult.entry_eq_none_iff, ContextResult.mem_ids_ofKeywords, List.map_map]
  apply h

section Entries

variable (h : tables.Unique)

include h

/-- The entry of a memory that only its embedding finds. -/
theorem entry_vector {row : MemoryRow} {σ : F} (hrow : row ∈ tables.memories)
    (hnot : row.id ∉ rows.map MemoryRow.id)
    (hσ : ("memory", row.id, σ) ∈ tables.vectorEntities sorting orders project vector limit) :
  ContextResult.entry (tables.resultMap sorting orders codec project vector limit rows) row.id
    = some
      { id := row.id, content := row.content, category := row.category, score := σ,
        source := "vector" }
  := by
  rw [entry_resultMap h,
    (ContextResult.similarity_eq_some_iff (distinct_vectorEntities h)).mpr hσ,
    entry_ofRows_none hnot, (memoryRow_eq_some_iff h _).mpr ⟨hrow, rfl⟩]
  rfl

/-- What has an entry is found by the keywords, or is a memory whose embedding is found. -/
theorem found_of_entry {id : String} {r : ContextResult F}
    (hr : ContextResult.entry (tables.resultMap sorting orders codec project vector limit rows) id
      = some r) :
  (∃ (i : ℕ) (row : MemoryRow), rows[i]? = some row ∧ row.id = id)
    ∨ ∃ (row : MemoryRow) (σ : F), row ∈ tables.memories ∧ row.id = id ∧ id ∉ rows.map MemoryRow.id
      ∧ ("memory", id, σ) ∈ tables.vectorEntities sorting orders project vector limit
  := by
  by_cases hid : id ∈ rows.map MemoryRow.id
  · obtain ⟨row, hrow, rfl⟩ := List.mem_map.mp hid
    obtain ⟨i, hi⟩ := List.getElem?_of_mem hrow
    exact Or.inl ⟨i, row, hi, rfl⟩
  · apply Or.inr
    rw [entry_resultMap h, entry_ofRows_none hid] at hr
    cases hsimilarity : ContextResult.similarity
        (tables.vectorEntities sorting orders project vector limit) id with
    | none =>
        rw [hsimilarity] at hr
        cases hr
    | some σ =>
        rw [hsimilarity] at hr
        cases hlookup : tables.memoryRow orders.memories id with
        | none =>
            rw [hlookup] at hr
            cases hr
        | some row =>
            obtain ⟨hrow, rfl⟩ := (memoryRow_eq_some_iff h _).mp hlookup
            use row, σ, hrow, rfl, hid
            apply (ContextResult.similarity_eq_some_iff (distinct_vectorEntities h)).mp hsimilarity

variable (hrows : (rows.map MemoryRow.id).Nodup)

include hrows

/-- The entry of a memory that only the keywords find. -/
theorem entry_keyword {i : ℕ} {row : MemoryRow} (hrow : rows[i]? = some row)
    (hnone : ∀ σ, ("memory", row.id, σ)
      ∉ tables.vectorEntities sorting orders project vector limit) :
  ContextResult.entry (tables.resultMap sorting orders codec project vector limit rows) row.id
    = some (ContextResult.ofKeyword rows.length (memoryFromRow codec row, i))
  := by
  rw [entry_resultMap h, ContextResult.similarity_eq_none_iff.mpr hnone]
  apply entry_ofRows hrows hrow

/-- The entry of a memory that the keywords and its embedding find. -/
theorem entry_hybrid {i : ℕ} {row : MemoryRow} {σ : F} (hrow : rows[i]? = some row)
    (hσ : ("memory", row.id, σ) ∈ tables.vectorEntities sorting orders project vector limit) :
  ContextResult.entry (tables.resultMap sorting orders codec project vector limit rows) row.id
    = some
      { id := row.id
        content := row.content
        category := row.category
        score := (ContextResult.keywordScore i rows.length + σ) / SingleFloat.ofRat 2
        source := "hybrid" }
  := by
  rw [entry_resultMap h,
    (ContextResult.similarity_eq_some_iff (distinct_vectorEntities h)).mpr hσ,
    entry_ofRows hrows hrow]
  rfl

end Entries

section Exact

variable {K : Type} [Field K] [LinearOrder K] [IsStrictOrderedRing K] [ExactFloat F K]

theorem exact_ofKeyword {i : ℕ} {row : MemoryRow} (h : rows[i]? = some row) :
  (ContextResult.ofKeyword (F := F) rows.length (memoryFromRow codec row, i)).exact
    = { id := row.id, content := row.content, category := row.category,
        score := 1 - (i : K) / (2 * rows.length), source := "keyword" }
  := by
  obtain ⟨hi, -⟩ := List.getElem?_eq_some_iff.mp h
  rw [ContextResult.exact, ContextResult.ofKeyword, ContextResult.value_keywordScore hi]
  rfl

theorem exact_hybrid {i : ℕ} {row : MemoryRow} {σ : F} (h : rows[i]? = some row) :
  ContextResult.exact
      { id := row.id, content := row.content, category := row.category,
        score := (ContextResult.keywordScore i rows.length + σ) / SingleFloat.ofRat 2,
        source := "hybrid" }
    = { id := row.id, content := row.content, category := row.category,
        score := (1 - (i : K) / (2 * rows.length) + ExactFloat.value σ) / 2, source := "hybrid" }
  := by
  obtain ⟨hi, -⟩ := List.getElem?_eq_some_iff.mp h
  rw [ContextResult.exact, ExactFloat.value_div, ExactFloat.value_add,
    ContextResult.value_keywordScore hi, ExactFloat.value_ofRat, Rat.cast_ofNat]

/-- The entries of the map of results. -/
theorem mem_exact_resultMap (h : tables.Unique) (hrows : (rows.map MemoryRow.id).Nodup)
    {e : ContextResult K} :
  e ∈ (tables.resultMap sorting orders codec project vector limit rows).map ContextResult.exact
    ↔ ContextResult.MergedEntry rows (tables.vectorEntities sorting orders project vector limit)
      tables.memories e
  := by
  rw [List.mem_map]
  constructor
  · rintro ⟨r, hr, rfl⟩
    have hentry := (ContextResult.mem_iff_entry nodup_resultMap).mp hr
    rcases found_of_entry h hentry with ⟨i, row, hrow, hid⟩ | ⟨row, σ, hrow, hid, hnot, hσ⟩
    · rw [← hid] at hentry
      by_cases hsimilar : ∃ σ, ("memory", row.id, σ)
          ∈ tables.vectorEntities sorting orders project vector limit
      · obtain ⟨σ, hσ⟩ := hsimilar
        obtain rfl := Option.some.inj (hentry.symm.trans (entry_hybrid h hrows hrow hσ))
        rw [exact_hybrid hrow]
        apply ContextResult.MergedEntry.hybrid hrow hσ
      · have hnone := not_exists.mp hsimilar
        obtain rfl := Option.some.inj (hentry.symm.trans (entry_keyword h hrows hrow hnone))
        rw [exact_ofKeyword hrow]
        apply ContextResult.MergedEntry.keyword hrow hnone
    · rw [← hid] at hentry hnot hσ
      obtain rfl := Option.some.inj (hentry.symm.trans (entry_vector h hrow hnot hσ))
      apply ContextResult.MergedEntry.vector hrow hnot hσ
  · intro he
    cases he with
    | keyword hrow hnone =>
        exact ⟨_, List.mem_of_find?_eq_some (entry_keyword h hrows hrow hnone),
          exact_ofKeyword hrow⟩
    | hybrid hrow hσ =>
        exact ⟨_, List.mem_of_find?_eq_some (entry_hybrid h hrows hrow hσ), exact_hybrid hrow⟩
    | vector hrow hnot hσ =>
        exact ⟨_, List.mem_of_find?_eq_some (entry_vector h hrow hnot hσ), rfl⟩

end Exact

end Search

end MemoryTables

section Search

variable {F : Type} [SingleFloat F] {K : Type} [Field K] [LinearOrder K] [IsStrictOrderedRing K]
  [ExactFloat F K] (sorting : SortBy) (orders : Orders F) (codec : TagCodec)

/-- What a search merges before its budget cuts it: one entry for each memory found, with the
score, the source and the row that the two searches give it. -/
theorem merged_exactly {s s' : MemoryState} (h : s.db.Reliable) (hunique : s.db.tables.Unique)
    {project query : String} {vector : Option (List F)} {budget : ℕ} {category : Option String}
    {found : List (ContextResult F) × ℕ}
    (hrun : (HybridSearch.getContext sorting orders codec project query vector budget category).Runs
      s (.ok found) s') :
  ∃ (rows : List MemoryRow) (resultMap : List (ContextResult F)),
    s.db.tables.keywordRows orders.memories project query category (max budget 20) = .ok rows
    ∧ (rows.map MemoryRow.id).Nodup ∧ rows ⊆ s.db.tables.memories
    ∧ found = ContextResult.ranked sorting orders budget resultMap
    ∧ (resultMap.map ContextResult.id).Nodup
    ∧ ∀ e : ContextResult K, e ∈ resultMap.map ContextResult.exact
      ↔ ContextResult.MergedEntry rows
        (s.db.tables.vectorEntities sorting orders project vector (max budget 20))
        s.db.tables.memories e
  := by
  obtain ⟨-, rows, hrows, hfound⟩ := (HybridSearch.runs_getContext_ok h).mp hrun
  have hnodup := MemoryTables.nodup_keywordRows hunique.memories hrows
  refine ⟨rows, _, hrows, hnodup, (MemoryTables.keywordRows_subperm hrows).subset, hfound,
    MemoryTables.nodup_resultMap, ?_⟩
  intro e
  apply MemoryTables.mem_exact_resultMap hunique hnodup

end Search

/-! ### Exact floats -/

/-- An `f32` as the rational number that it stands for, with exact arithmetic; what a search
does not use is left out. -/
structure ExactF32 where
  value : ℚ
  deriving DecidableEq

namespace ExactF32

/-- The number that finite bits stand for. -/
def ofBits (bits : BitVec 32) : ℚ :=
  let exponent : ℕ := bits.toNat / 2 ^ 23 % 2 ^ 8
  let mantissa : ℕ := bits.toNat % 2 ^ 23
  let magnitude : ℚ :=
    if exponent = 0 then mantissa / 2 ^ 149
    else (2 ^ 23 + mantissa) * 2 ^ exponent / 2 ^ 150
  if bits.msb then -magnitude else magnitude

instance : SingleFloat ExactF32 where
  add a b := ⟨a.value + b.value⟩
  sub a b := ⟨a.value - b.value⟩
  mul a b := ⟨a.value * b.value⟩
  div a b := ⟨a.value / b.value⟩
  toBits _ := 0
  ofBits bits := ⟨ofBits bits⟩
  ofF64 _ := ⟨0⟩
  ofRat q := ⟨q⟩
  sum xs := ⟨(xs.map value).sum⟩
  sqrt x := ⟨Rat.sqrt x.value⟩
  partialCmp a b := some (compare a.value b.value)
  toJson _ := .null

instance : ExactFloat ExactF32 ℚ where
  value := value
  value_add _ _ := rfl
  value_sub _ _ := rfl
  value_mul _ _ := rfl
  value_div _ _ := rfl
  value_ofRat q := (Rat.cast_id q).symm
  partialCmp_eq _ _ := rfl

end ExactF32

/-- The orders of insertion, for exact floats. -/
def insertedExact : Orders ExactF32 :=
  ⟨.inserted, .inserted, .inserted, .inserted⟩

/-- Two notes, the first with the embedding `[7, 24]`. -/
def embeddedFirst : MemoryState where
  db :=
    { tables :=
        { MemoryTables.empty with
          memories := [noteRow "m1" "alpha" "first", noteRow "m2" "alpha" "second"]
          embeddings :=
            [(MemoryTools.memoryEmbedding "e1" "m1" "alpha"
              [(⟨0x40e00000⟩ : F32), ⟨0x41c00000⟩]).row] }
      faults := [] }
  issued := ["m2", "e1", "m1"]

theorem unique_embeddedFirst :
  embeddedFirst.db.tables.Unique
  := by
  constructor
  · decide
  · decide

/-- The vector `[1, 0]`, of similarity `7 / 25` to the embedding. -/
def towardsFirst : Option (List ExactF32) :=
  some [⟨1⟩, ⟨0⟩]

/-- The state has the notes, so a search for them returns what it merges. -/
theorem merged_exactly_embeddedFirst :
  ∃ (rows : List MemoryRow) (resultMap : List (ContextResult ExactF32)),
    (HybridSearch.getContext SortBy.merge insertedExact noTags "alpha" "" towardsFirst 2000
      none).Runs embeddedFirst
      (.ok (ContextResult.ranked SortBy.merge insertedExact 2000 resultMap)) embeddedFirst
    ∧ (resultMap.map ContextResult.id).Nodup
    ∧ ∀ e : ContextResult ℚ, e ∈ resultMap.map ContextResult.exact
      ↔ ContextResult.MergedEntry rows
        (embeddedFirst.db.tables.vectorEntities SortBy.merge insertedExact "alpha" towardsFirst
          (max 2000 20))
        embeddedFirst.db.tables.memories e
  := by
  have hreliable : embeddedFirst.db.Reliable := rfl
  obtain ⟨found, hrun⟩ : ∃ found, (HybridSearch.getContext SortBy.merge insertedExact noTags
      "alpha" "" towardsFirst 2000 none).Runs embeddedFirst (.ok found) embeddedFirst := by
    exact ⟨_, (HybridSearch.runs_getContext_ok hreliable).mpr
      ⟨rfl, _, keywordRows_of_noWords _ "alpha" none (max 2000 20) _, rfl⟩⟩
  obtain ⟨rows, resultMap, -, -, -, hfound, hids, hentries⟩ :=
    merged_exactly SortBy.merge insertedExact noTags hreliable unique_embeddedFirst hrun
  rw [hfound] at hrun
  exact ⟨rows, resultMap, hrun, hids, hentries⟩

end OrchestraRag
