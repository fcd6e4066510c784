import OrchestraRag.Memory.Evidence

/-!
# Keyword results in order

Without a query vector the scores of a search only say where its keyword results stand, so that
the ranking of the map is the order in which they were found.
-/

namespace OrchestraRag

open Sql

/-! ### What a keyword search finds -/

namespace MemoryTables

variable {F : Type}

/-- A limit that becomes negative by its cast is more than the rows of a table. -/
theorem length_limit_le {ρ : Type} (n : ℕ) {rows : List ρ} (h : rows.length < 2 ^ 63) :
  (Sql.limit (asI64 n) rows).length ≤ n
  := by
  have hcast := asI64_eq n
  rw [Sql.limit]
  split
  · rename_i hneg
    split at hcast
    · omega
    · omega
  · rw [List.length_take]
    split at hcast
    · omega
    · omega

theorem length_keywordRows_le {orders : Orders F} {project query : String}
    {category : Option String} {limit : ℕ} {tables : MemoryTables} {rows : List MemoryRow}
    (hsize : tables.memories.length < 2 ^ 63)
    (h : tables.keywordRows orders.memories project query category limit = .ok rows) :
  rows.length ≤ limit
  := by
  obtain ⟨selected, hselected, hrows⟩ := keywordRows_eq_limit h
  rw [hrows]
  apply length_limit_le
  rw [(orders.memories.perm_orderBy byUpdatedAt selected).length_eq]
  apply hselected.length_le.trans_lt hsize

theorem pairwise_keywordRows {orders : Orders F} {project query : String}
    {category : Option String} {limit : ℕ} {tables : MemoryTables} {rows : List MemoryRow}
    (h : tables.keywordRows orders.memories project query category limit = .ok rows) :
  rows.Pairwise (fun a b => b.updatedAt ≤ a.updatedAt)
  := by
  obtain ⟨selected, -, hrows⟩ := keywordRows_eq_limit h
  rw [hrows]
  apply List.Pairwise.sublist (limit_sublist _ _)
    (pairwise_byUpdatedAt orders.memories selected)

end MemoryTables

/-! ### The ranking of keyword results -/

section Ranking

variable {F : Type} [SingleFloat F] (K : Type) [Field K] [LinearOrder K] [ExactFloat F K]

open ContextResult ExactFloat

/-- With exact scores one entry comes before another if it scores more. -/
theorem byRank_exact (a b : ContextResult F) :
  byRank a b = compare (value b.score : K) (value a.score)
  := by
  rw [byRank, byScore, partialCmp_eq]
  rfl

include K in
theorem totalPreorder_byRank (resultMap : List (ContextResult F)) :
  TotalPreorder byRank resultMap
  := by
  constructor
  · intro a _ b _
    rw [byRank_exact K, byRank_exact K]
    exact Std.OrientedOrd.eq_swap
  · intro a _ b _ c _ hab hbc
    rw [byRank_exact K] at *
    rw [ne_eq, compare_gt_iff_gt, not_lt] at *
    apply hbc.trans hab

variable [IsStrictOrderedRing K]

/-- The scores of keyword results decrease. -/
theorem pairwise_ofKeyword (memories : List Memory) :
  (memories.zipIdx.map (ofKeyword (F := F) memories.length)).Pairwise
    (fun a b => (value b.score : K) < value a.score)
  := by
  rw [List.pairwise_iff_getElem]
  intro i j hi hj hij
  rw [List.length_map, List.length_zipIdx] at hi hj
  simp only [List.getElem_map, List.getElem_zipIdx, ofKeyword, zero_add]
  rw [value_keywordScore hi, value_keywordScore hj]
  apply positionScore_strictAnti hij hj

include K in
/-- The ranking of keyword results is the order in which they were found. -/
theorem ranking_ofKeywords (sorting : SortBy) (orders : Orders F) {memories : List Memory}
    (h : (memories.map Memory.id).Nodup) :
  ranking sorting orders (ofKeywords memories)
    = memories.zipIdx.map (ofKeyword (F := F) memories.length)
  := by
  have hdecreasing := pairwise_ofKeyword (F := F) K memories
  have hperm := perm_ranking sorting orders (ofKeywords memories)
  have hsorted := pairwise_ranking sorting orders (totalPreorder_byRank K (ofKeywords memories))
  rw [ofKeywords_of_nodup h] at hperm hsorted ⊢
  have hle : ∀ {a b : ContextResult F}, byRank a b ≠ .gt ↔ (value b.score : K) ≤ value a.score := by
    intro a b
    rw [byRank_exact K, ne_eq, compare_gt_iff_gt, not_lt]
  have hscores : ((memories.zipIdx.map (ofKeyword (F := F) memories.length)).map
      (fun r => (value r.score : K))).Nodup := by
    apply List.pairwise_map.mpr
    apply hdecreasing.imp
    intro a b hab
    apply hab.ne'
  apply hperm.eq_of_pairwise _ hsorted
  · apply hdecreasing.imp
    intro a b hab
    apply hle.mpr hab.le
  · intro a b ha hb hab hba
    apply List.inj_on_of_nodup_map hscores (hperm.mem_iff.mp ha) hb
    apply le_antisymm (hle.mp hba) (hle.mp hab)

include K in
/-- What the budget keeps of the keyword results are the first of the memories found. -/
theorem ranked_ofKeywords (sorting : SortBy) (orders : Orders F) (budget : ℕ)
    {memories : List Memory} (h : (memories.map Memory.id).Nodup) :
  ∃ kept : List Memory, kept.IsPrefix memories
    ∧ (ranked sorting orders budget (ofKeywords memories)).1.map
        (fun r => (r.id, r.content, r.category))
      = kept.map (fun mem => (mem.id, mem.content, mem.category))
  := by
  obtain ⟨entries, hinit, hranked⟩ := ranked_isPrefix sorting orders budget (ofKeywords memories)
  rw [ranking_ofKeywords K sorting orders h] at hinit
  have hshown : (memories.zipIdx.map (ofKeyword (F := F) memories.length)).map
      (fun r => (r.id, r.content, r.category))
      = memories.map (fun mem => (mem.id, mem.content, mem.category)) := by
    calc _ = (memories.zipIdx.map Prod.fst).map (fun mem => (mem.id, mem.content, mem.category)) := by
          rw [List.map_map, List.map_map]
          rfl
      _ = _ := by rw [List.zipIdx_map_fst]
  use memories.take entries.length, List.take_prefix _ _
  rw [hranked, List.map_take, ← hshown, ← List.map_take, ← List.prefix_iff_eq_take.mp hinit]

end Ranking

section Search

variable {F : Type} [SingleFloat F] (K : Type) [Field K] [LinearOrder K] [IsStrictOrderedRing K]
  [ExactFloat F K] (sorting : SortBy) (orders : Orders F) (codec : TagCodec)

include K

/-- A search without a query vector returns the first of the memories that its keywords find, in
their order, whatever the order of its map of results. -/
theorem keyword_context_in_order {s s' : MemoryState} (h : s.db.Reliable)
    (hunique : (s.db.tables.memories.map MemoryRow.id).Nodup) {project query : String}
    {budget : ℕ} {category : Option String} {entries : List (ContextResult F)} {tokens : ℕ}
    (hrun : (HybridSearch.getContext sorting orders codec project query none budget category).Runs
      s (.ok (entries, tokens)) s') :
  ∃ memories : List Memory,
    (MemoryStorage.searchMemoriesKeyword orders.memories codec project query category
      (max budget 20)).Runs s (.ok memories) s
    ∧ memories.Pairwise (fun a b => b.updatedAt ≤ a.updatedAt)
    ∧ (s.db.tables.memories.length < 2 ^ 63 → memories.length ≤ max budget 20)
    ∧ ∃ kept : List Memory, kept.IsPrefix memories
      ∧ entries.map (fun r => (r.id, r.content, r.category))
        = kept.map (fun mem => (mem.id, mem.content, mem.category))
  := by
  obtain ⟨-, rows, hrows, hfound⟩ := (HybridSearch.runs_getContext_ok h).mp hrun
  have hreads := MemoryStorage.reads_searchMemoriesKeyword orders.memories codec h project query
    category (max budget 20)
  rw [hrows] at hreads
  have hids : ((rows.map (memoryFromRow codec)).map Memory.id).Nodup := by
    rw [List.map_map]
    apply MemoryTables.nodup_keywordRows hunique hrows
  use rows.map (memoryFromRow codec), (hreads _ _).mpr ⟨rfl, rfl⟩
  constructor
  · apply List.pairwise_map.mpr (MemoryTables.pairwise_keywordRows hrows)
  · constructor
    · intro hsize
      rw [List.length_map]
      apply MemoryTables.length_keywordRows_le hsize hrows
    · obtain ⟨kept, hkept, hshown⟩ := ranked_ofKeywords K sorting orders budget hids
      use kept, hkept
      rw [← hshown]
      exact congrArg (fun found => found.1.map (fun r => (r.id, r.content, r.category))) hfound

end Search

/-- The map of results yields the last entry inserted first. -/
def reversedExact : Orders ExactF32 :=
  ⟨.inserted, .inserted, .inserted, .reversed⟩

/-- The notes are returned in their order, although the map yields the second first. -/
theorem keyword_context_in_order_reversed :
  ∃ (entries : List (ContextResult ExactF32)) (tokens : ℕ) (memories kept : List Memory),
    (HybridSearch.getContext SortBy.merge reversedExact noTags "alpha" "" none 2000 none).Runs
      embeddedFirst (.ok (entries, tokens)) embeddedFirst
    ∧ kept.IsPrefix memories
    ∧ entries.map (fun r => (r.id, r.content, r.category))
      = kept.map (fun mem => (mem.id, mem.content, mem.category))
  := by
  have hreliable : embeddedFirst.db.Reliable := rfl
  obtain ⟨⟨entries, tokens⟩, hrun⟩ : ∃ found, (HybridSearch.getContext SortBy.merge reversedExact
      noTags "alpha" "" none 2000 none).Runs embeddedFirst (.ok found) embeddedFirst := by
    exact ⟨_, (HybridSearch.runs_getContext_ok hreliable).mpr
      ⟨rfl, _, keywordRows_embeddedFirst, rfl⟩⟩
  obtain ⟨memories, -, -, -, kept, hkept, hshown⟩ := keyword_context_in_order ℚ SortBy.merge
    reversedExact noTags hreliable unique_embeddedFirst.memories hrun
  use entries, tokens, memories, kept, hrun, hkept, hshown

end OrchestraRag
