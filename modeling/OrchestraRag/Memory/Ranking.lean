import Mathlib.Algebra.Order.BigOperators.Group.List
import OrchestraRag.Memory.Search

/-!
# The ranking of a hybrid search

Where the entries of the map of results come from, and which of them the token budget keeps.
The budget keeps a prefix of the ranking: an entry is kept when nothing is ranked before it, or
when it and all that is ranked before it fit.
-/

namespace OrchestraRag

open Sql

namespace ContextResult

variable {F : Type}

/-! ### The map of results -/

/-- The ids of the entries of a map. -/
def ids (resultMap : List (ContextResult F)) : List String :=
  resultMap.map ContextResult.id

theorem mem_ids {resultMap : List (ContextResult F)} {id : String} :
  id ∈ ids resultMap ↔ ∃ r ∈ resultMap, r.id = id
  := List.mem_map

theorem mem_ids_insert {result : ContextResult F} {resultMap : List (ContextResult F)}
    {id : String} :
  id ∈ ids (result.insert resultMap) ↔ id = result.id ∨ id ∈ ids resultMap
  := by
  rw [mem_ids, mem_ids]
  constructor
  · rintro ⟨r, hr, rfl⟩
    rcases mem_insert hr with rfl | hr
    · apply Or.inl rfl
    · exact Or.inr ⟨r, hr, rfl⟩
  · intro h
    by_cases hid : id = result.id
    · use result
      rw [hid]
      exact ⟨List.mem_append_right _ (List.mem_singleton.mpr rfl), rfl⟩
    · rcases h with h | ⟨r, hr, rfl⟩
      · cases hid h
      · use r
        constructor
        · apply List.mem_append_left
          apply List.mem_filter.mpr ⟨hr, decide_eq_true hid⟩
        · rfl

/-- An insertion keeps the ids distinct. -/
theorem nodup_insert {result : ContextResult F} {resultMap : List (ContextResult F)}
    (h : (ids resultMap).Nodup) :
  (ids (result.insert resultMap)).Nodup
  := by
  rw [ids, insert, List.map_append, List.nodup_append]
  constructor
  · apply List.Nodup.sublist _ h
    apply List.filter_sublist.map
  · constructor
    · apply List.nodup_singleton
    · rintro id hid _ hresult rfl
      obtain ⟨r, hr, rfl⟩ := List.mem_map.mp hid
      have hne := of_decide_eq_true (List.mem_filter.mp hr).2
      apply hne (List.mem_singleton.mp hresult)

theorem mem_ids_insertAll {results resultMap : List (ContextResult F)} {id : String} :
  id ∈ ids (insertAll results resultMap) ↔ id ∈ ids results ∨ id ∈ ids resultMap
  := by
  induction results generalizing resultMap with
  | nil => simp [insertAll, ids]
  | cons result results ih =>
      have hcons : id ∈ ids (result :: results) ↔ id = result.id ∨ id ∈ ids results :=
        List.mem_cons
      rw [insertAll, List.foldl_cons, ← insertAll, ih, mem_ids_insert, hcons, or_assoc,
        or_left_comm]

theorem nodup_insertAll (results : List (ContextResult F)) {resultMap : List (ContextResult F)}
    (h : (ids resultMap).Nodup) :
  (ids (insertAll results resultMap)).Nodup
  := by
  induction results generalizing resultMap with
  | nil => apply h
  | cons result results ih => apply ih (nodup_insert h)

section Merge

variable [SingleFloat F]

/-- Where an entry of the keyword results comes from. -/
theorem mem_ofKeywords {memories : List Memory} {r : ContextResult F}
    (h : r ∈ (ofKeywords memories : List (ContextResult F))) :
  ∃ mem ∈ memories, mem.id = r.id ∧ mem.content = r.content ∧ mem.category = r.category
  := shows_ofKeywords (P := fun id content category => ∃ mem ∈ memories, mem.id = id
      ∧ mem.content = content ∧ mem.category = category)
    (fun mem hmem => ⟨mem, hmem, rfl, rfl, rfl⟩) r h

/-- The ids of the keyword results are those of the memories found. -/
theorem mem_ids_ofKeywords {memories : List Memory} {id : String} :
  id ∈ ids (ofKeywords memories : List (ContextResult F)) ↔ id ∈ memories.map Memory.id
  := by
  have hids : ids (memories.zipIdx.map (ofKeyword memories.length) : List (ContextResult F))
      = (memories.zipIdx.map Prod.fst).map Memory.id := by
    rw [ids, List.map_map, List.map_map]
    rfl
  rw [ofKeywords_eq, mem_ids_insertAll, hids, List.zipIdx_map_fst]
  simp [ids]

theorem nodup_ofKeywords (memories : List Memory) :
  (ids (ofKeywords memories : List (ContextResult F))).Nodup
  := by
  rw [ofKeywords_eq]
  apply nodup_insertAll
  apply List.nodup_nil

/-- An entity of type `memory` is the entry's, and a memory of its category is found for it. -/
def LookedUp (find : String → Except String (Option Memory)) (entities : List (String × String × F))
    (r : ContextResult F) : Prop :=
  ∃ similarity mem, ("memory", r.id, similarity) ∈ entities ∧ find r.id = .ok (some mem)
    ∧ mem.category = r.category

variable {find : String → Except String (Option Memory)} {resultMap : List (ContextResult F)}
  {entities : List (String × String × F)} {r : ContextResult F}

omit [SingleFloat F] in
theorem LookedUp.cons (e : String × String × F) (h : LookedUp find entities r) :
  LookedUp find (e :: entities) r
  := by
  obtain ⟨similarity, mem, he, hmem⟩ := h
  use similarity, mem, List.mem_cons_of_mem _ he

/-- Where an entry of a merged map comes from: the map, or a lookup of an id that is not in the
map. -/
theorem mem_mergeVectors (h : r ∈ Id.run (mergeVectors find resultMap entities)) :
  (∃ r₀ ∈ resultMap, r₀.id = r.id ∧ r₀.category = r.category)
    ∨ r.id ∉ ids resultMap ∧ LookedUp find entities r
  := by
  induction entities generalizing resultMap with
  | nil => exact Or.inl ⟨r, h, rfl, rfl⟩
  | cons e entities ih =>
      obtain ⟨resultMap', hmerges, hcons⟩ := mergeVectors_cons find resultMap e entities
      rw [hcons] at h
      cases hmerges with
      | skipped =>
          apply (ih h).imp_right
          apply And.imp_right (LookedUp.cons e)
      | @hybrid existing hexisting =>
          rcases ih h with ⟨r₀, hr₀, hid, hcategory⟩ | ⟨hid, hlookup⟩
          · apply Or.inl
            rcases mem_insert hr₀ with rfl | hr₀
            · exact ⟨existing, hexisting, hid, hcategory⟩
            · exact ⟨r₀, hr₀, hid, hcategory⟩
          · apply Or.inr
            use fun hr => hid (mem_ids_insert.mpr (Or.inr hr))
            apply hlookup.cons
      | @vector mem htype habsent hfound =>
          rcases ih h with ⟨r₀, hr₀, hid, hcategory⟩ | ⟨hid, hlookup⟩
          · rcases mem_insert hr₀ with rfl | hr₀
            · apply Or.inr
              constructor
              · intro hr
                obtain ⟨r₁, hr₁, hid₁⟩ := mem_ids.mp hr
                apply habsent r₁ hr₁ (hid₁.trans hid.symm)
              · refine ⟨e.2.2, mem, ?_, ?_, hcategory⟩
                · rw [← hid, ← htype]
                  apply List.mem_cons_self
                · rw [← hid]
                  apply hfound
            · exact Or.inl ⟨r₀, hr₀, hid, hcategory⟩
          · apply Or.inr
            use fun hr => hid (mem_ids_insert.mpr (Or.inr hr))
            apply hlookup.cons

/-- A merge keeps the ids of the map. -/
theorem ids_subset_mergeVectors {id : String} (h : id ∈ ids resultMap) :
  id ∈ ids (mergeVectors (m := Id) find resultMap entities)
  := by
  induction entities generalizing resultMap with
  | nil => apply h
  | cons e entities ih =>
      obtain ⟨resultMap', hmerges, hcons⟩ := mergeVectors_cons find resultMap e entities
      rw [hcons]
      apply ih
      cases hmerges with
      | skipped => apply h
      | hybrid => apply mem_ids_insert.mpr (Or.inr h)
      | vector => apply mem_ids_insert.mpr (Or.inr h)

/-- A merge adds the ids of the memories that it finds. -/
theorem mem_ids_mergeVectors {id : String} {similarity : F} {mem : Memory}
    (h : ("memory", id, similarity) ∈ entities) (hfound : find id = .ok (some mem)) :
  id ∈ ids (mergeVectors (m := Id) find resultMap entities)
  := by
  induction entities generalizing resultMap with
  | nil => cases h
  | cons e entities ih =>
      rcases List.mem_cons.mp h with rfl | hlater
      · by_cases hid : id ∈ ids resultMap
        · apply ids_subset_mergeVectors hid
        · have habsent : resultMap.find? (fun result => result.id = id) = none := by
            apply List.find?_eq_none.mpr
            intro r hr heq
            apply hid (mem_ids.mpr ⟨r, hr, of_decide_eq_true heq⟩)
          simp only [mergeVectors, ne_eq, not_true, if_false, habsent, hfound]
          apply ids_subset_mergeVectors
          apply mem_ids_insert.mpr (Or.inl rfl)
      · obtain ⟨resultMap', -, hcons⟩ := mergeVectors_cons find resultMap e entities
        rw [hcons]
        apply ih hlater

/-- A merge keeps the ids distinct. -/
theorem nodup_merge (h : (ids resultMap).Nodup) :
  (ids (mergeVectors (m := Id) find resultMap entities)).Nodup
  := by
  induction entities generalizing resultMap with
  | nil => apply h
  | cons e entities ih =>
      obtain ⟨resultMap', hmerges, hcons⟩ := mergeVectors_cons find resultMap e entities
      rw [hcons]
      apply ih
      cases hmerges with
      | skipped => apply h
      | hybrid => apply nodup_insert h
      | vector => apply nodup_insert h

/-- A merge whose lookups are programs keeps the ids distinct. -/
theorem nodup_mergeVectors {s s' : MemoryState}
    {lookup : String → MemoryM (Except String (Option Memory))} {merged : List (ContextResult F)}
    (h : (mergeVectors lookup resultMap entities).Runs s (.ok merged) s')
    (hnodup : (ids resultMap).Nodup) :
  (ids merged).Nodup
  := by
  induction entities generalizing resultMap s with
  | nil =>
      obtain ⟨hmerged, -⟩ := Program.exec_ret.mp h
      rw [Except.ok.inj hmerged]
      apply hnodup
  | cons e entities ih =>
      obtain ⟨found, resultMap', s₁, hmerges, hrest⟩ := runs_mergeVectors_cons h
      apply ih hrest
      cases hmerges with
      | skipped => apply hnodup
      | hybrid => apply nodup_insert hnodup
      | vector => apply nodup_insert hnodup

end Merge

/-! ### The token budget -/

/-- The tokens of some results. -/
def tokenCount (results : List (ContextResult F)) : ℕ :=
  (results.map (fun r => estimateTokens r.content)).sum

@[simp]
theorem tokenCount_append (results results' : List (ContextResult F)) :
  tokenCount (results ++ results') = tokenCount results + tokenCount results'
  := by
  rw [tokenCount, List.map_append, List.sum_append]
  rfl

@[simp]
theorem tokenCount_cons (r : ContextResult F) (results : List (ContextResult F)) :
  tokenCount (r :: results) = estimateTokens r.content + tokenCount results
  := List.sum_cons

/-- Nothing is ranked before the entry, or it and all that is ranked before it fit into the
budget. -/
def Fits (budget : ℕ) (before : List (ContextResult F)) (r : ContextResult F) : Prop :=
  before = [] ∨ tokenCount (before ++ [r]) ≤ budget

section Truncate

variable {budget : ℕ} {truncated results : List (ContextResult F)} {r : ContextResult F}

/-- One more result is taken. -/
theorem truncate_cons (h : Fits budget truncated r) :
  truncate budget (tokenCount truncated) truncated (r :: results)
    = truncate budget (tokenCount (truncated ++ [r])) (truncated ++ [r]) results
  := by
  have hcount : tokenCount (truncated ++ [r]) = tokenCount truncated + estimateTokens r.content :=
    tokenCount_append truncated [r]
  have htaken : ¬ (budget < tokenCount truncated + estimateTokens r.content ∧ truncated ≠ []) := by
    rintro ⟨hover, hne⟩
    rcases h with h | h
    · cases hne h
    · omega
  rw [truncate, if_neg htaken, hcount]

/-- A result that does not fit ends the list. -/
theorem truncate_cons_of_not (h : ¬ Fits budget truncated r) :
  truncate budget (tokenCount truncated) truncated (r :: results)
    = (truncated, tokenCount truncated)
  := by
  have hcount : tokenCount (truncated ++ [r]) = tokenCount truncated + estimateTokens r.content :=
    tokenCount_append truncated [r]
  obtain ⟨hne, hover⟩ := not_or.mp h
  rw [truncate, if_pos ⟨by omega, hne⟩]

/-- What is ranked after a result that does not fit does not fit. -/
theorem not_fits_append {after : List (ContextResult F)} {r' : ContextResult F}
    (h : ¬ Fits budget truncated r) :
  ¬ Fits budget (truncated ++ r :: after) r'
  := by
  obtain ⟨-, hover⟩ := not_or.mp h
  rintro (hnil | hfits)
  · simp at hnil
  · simp only [tokenCount_append, tokenCount_cons] at hfits hover
    omega

/-- The budget keeps a prefix of the ranking, and the estimate is the tokens of it. -/
theorem truncate_isPrefix :
  ∃ kept, kept.IsPrefix results ∧ truncate budget (tokenCount truncated) truncated results
    = (truncated ++ kept, tokenCount (truncated ++ kept))
  := by
  induction results generalizing truncated with
  | nil =>
      use [], List.prefix_refl _
      rw [List.append_nil]
      rfl
  | cons r results ih =>
      by_cases hfits : Fits budget truncated r
      · obtain ⟨kept, hkept, htruncate⟩ := @ih (truncated ++ [r])
        use r :: kept, List.cons_prefix_cons.mpr ⟨rfl, hkept⟩
        rw [truncate_cons hfits, htruncate, List.append_assoc, List.singleton_append]
      · use [], List.nil_prefix
        rw [truncate_cons_of_not hfits, List.append_nil]

/-- What the budget keeps, after it has kept `truncated`. -/
theorem mem_truncate_iff :
  r ∈ (truncate budget (tokenCount truncated) truncated results).1 ↔
    r ∈ truncated ∨ ∃ before after, results = before ++ r :: after
      ∧ Fits budget (truncated ++ before) r
  := by
  induction results generalizing truncated with
  | nil =>
      constructor
      · apply Or.inl
      · rintro (h | ⟨before, after, hsplit, -⟩)
        · apply h
        · simp at hsplit
  | cons result results ih =>
      by_cases hfits : Fits budget truncated result
      · rw [truncate_cons hfits, ih, List.mem_append, List.mem_singleton, or_assoc]
        apply or_congr_right
        constructor
        · rintro (rfl | ⟨before, after, rfl, hbefore⟩)
          · use [], results, rfl
            rw [List.append_nil]
            apply hfits
          · use result :: before, after, rfl
            rw [List.append_assoc] at hbefore
            apply hbefore
        · rintro ⟨before, after, hsplit, hbefore⟩
          cases before with
          | nil => exact Or.inl (List.cons.inj hsplit).1.symm
          | cons first before =>
              obtain ⟨rfl, hrest⟩ := List.cons.inj hsplit
              apply Or.inr
              use before, after, hrest
              rw [List.append_assoc]
              apply hbefore
      · rw [truncate_cons_of_not hfits]
        constructor
        · apply Or.inl
        · rintro (h | ⟨before, after, hsplit, hbefore⟩)
          · apply h
          · cases before with
            | nil =>
                obtain ⟨rfl, -⟩ := List.cons.inj hsplit
                rw [List.append_nil] at hbefore
                cases hfits hbefore
            | cons first before =>
                obtain ⟨rfl, -⟩ := List.cons.inj hsplit
                cases not_fits_append hfits hbefore

end Truncate

section Ranked

variable [SingleFloat F] (sorting : SortBy) (orders : Orders F)

/-- The entries of a map by descending score, before the budget cuts them. -/
def ranking (resultMap : List (ContextResult F)) : List (ContextResult F) :=
  sorting.sort (fun a b => byScore a.score b.score) (orders.results.order resultMap)

theorem perm_ranking (resultMap : List (ContextResult F)) :
  (ranking sorting orders resultMap).Perm resultMap
  := (sorting.perm _ _).trans (orders.results.perm resultMap)

/-- Which entries of a map the search returns. -/
theorem mem_ranked_iff {budget : ℕ} {resultMap : List (ContextResult F)} {r : ContextResult F} :
  r ∈ (ranked sorting orders budget resultMap).1 ↔
    ∃ before after, ranking sorting orders resultMap = before ++ r :: after
      ∧ Fits budget before r
  := by
  have htruncate := @mem_truncate_iff F budget [] (ranking sorting orders resultMap) r
  simp only [List.not_mem_nil, false_or, List.nil_append] at htruncate
  apply htruncate

/-- A budget that holds all entries cuts none off. -/
theorem mem_ranked_of_le {budget : ℕ} {resultMap : List (ContextResult F)} {r : ContextResult F}
    (hbudget : tokenCount resultMap ≤ budget) (hr : r ∈ resultMap) :
  r ∈ (ranked sorting orders budget resultMap).1
  := by
  have hperm := perm_ranking sorting orders resultMap
  obtain ⟨before, after, hsplit⟩ := List.append_of_mem (hperm.mem_iff.mpr hr)
  apply (mem_ranked_iff sorting orders).mpr ⟨before, after, hsplit, Or.inr _⟩
  have hcount : tokenCount (before ++ r :: after) = tokenCount resultMap := by
    rw [← hsplit]
    apply (hperm.map _).sum_eq
  simp only [tokenCount_append, tokenCount_cons] at hcount ⊢
  have hnil : tokenCount ([] : List (ContextResult F)) = 0 := rfl
  omega

/-- What the search returns is a prefix of the ranking, with its tokens. -/
theorem ranked_isPrefix (budget : ℕ) (resultMap : List (ContextResult F)) :
  ∃ kept, kept.IsPrefix (ranking sorting orders resultMap)
    ∧ ranked sorting orders budget resultMap = (kept, tokenCount kept)
  := @truncate_isPrefix F budget [] (ranking sorting orders resultMap)

/-- A single entry is returned whatever the budget. -/
theorem ranked_singleton (budget : ℕ) (r : ContextResult F) :
  ranked sorting orders budget [r] = ([r], tokenCount [r])
  := by
  calc ranked sorting orders budget [r]
      = truncate budget (tokenCount []) [] (ranking sorting orders [r]) := rfl
    _ = truncate budget (tokenCount []) [] [r] := by
      rw [List.perm_singleton.mp (perm_ranking sorting orders [r])]
    _ = ([r], tokenCount [r]) := truncate_cons (Or.inl rfl)

end Ranked

end ContextResult

end OrchestraRag
