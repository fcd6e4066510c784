import Mathlib.Algebra.Ring.Rat
import OrchestraRag.Memory.Filter

/-!
# The order of the map of results

The map of results is a hash map, and the sort by score keeps entries of equal score in the
order that the map yields them.  Two runs of a search that differ in this order only return the
same exactly if the token budget cuts off all entries of equal score
(`same_for_all_hash_orders_iff`).
-/

namespace OrchestraRag

open Sql

namespace ContextResult

variable {F : Type} [SingleFloat F]

/-- The order of entries by descending score. -/
def byRank (a b : ContextResult F) : Ordering :=
  byScore a.score b.score

/-- The entries that a score puts strictly before another. -/
def above (resultMap : List (ContextResult F)) (r : ContextResult F) : List (ContextResult F) :=
  resultMap.filter (fun other => byRank other r = .lt)

/-- The entries of equal score have others above them, with which each of them exceeds the
budget. -/
def TiesCutOff (budget : ℕ) (resultMap : List (ContextResult F)) : Prop :=
  ∀ r ∈ resultMap, ∀ r' ∈ resultMap, r' ≠ r → byRank r' r = .eq →
    above resultMap r ≠ [] ∧ budget < tokenCount (above resultMap r ++ [r])

/-! ### Tokens -/

omit [SingleFloat F] in
theorem tokenCount_perm {results results' : List (ContextResult F)} (h : results.Perm results') :
  tokenCount results = tokenCount results'
  := (h.map _).sum_nat

omit [SingleFloat F] in
theorem tokenCount_filter_le (p : ContextResult F → Bool) (results : List (ContextResult F)) :
  tokenCount (results.filter p) ≤ tokenCount results
  := by
  induction results with
  | nil => apply Nat.le_refl
  | cons r results ih =>
      rw [List.filter_cons, tokenCount_cons]
      split
      · rw [tokenCount_cons]
        omega
      · omega

omit [SingleFloat F] in
/-- Whether an entry fits does not depend on the order of those before it. -/
theorem fits_perm {budget : ℕ} {before before' : List (ContextResult F)} {r : ContextResult F}
    (h : before.Perm before') :
  Fits budget before r ↔ Fits budget before' r
  := by
  have hnil : before = [] ↔ before' = [] := by
    constructor
    · rintro rfl
      apply h.nil_eq.symm
    · rintro rfl
      apply h.eq_nil
  rw [Fits, Fits, tokenCount_append, tokenCount_append, tokenCount_perm h, hnil]

/-! ### One map in two orders -/

section Ranked

variable {sorting : SortBy} {orders : Orders F} {budget : ℕ} {resultMap : List (ContextResult F)}
  {r : ContextResult F}

variable (sorting orders) in
theorem pairwise_ranking (h : TotalPreorder byRank resultMap) :
  (ranking sorting orders resultMap).Pairwise (fun a b => byRank a b ≠ .gt)
  := sorting.pairwise_sort (h.perm (orders.results.perm resultMap))

section Split

variable {before after : List (ContextResult F)} (h : TotalPreorder byRank resultMap)
  (hsplit : ranking sorting orders resultMap = before ++ r :: after)

include h hsplit

/-- What comes strictly before an entry is ranked before it. -/
theorem perm_above :
  (above resultMap r).Perm (above before r)
  := by
  have hperm := perm_ranking sorting orders resultMap
  have hsorted := pairwise_ranking sorting orders h
  rw [hsplit] at hperm hsorted
  have hfilter := (h.perm hperm).filter_lt_split hsorted
  rw [above, above, ← hfilter]
  apply hperm.symm.filter

/-- An entry with others above it that do not fit does not fit where it is ranked. -/
theorem not_fits_of_above (hne : above resultMap r ≠ [])
    (hover : budget < tokenCount (above resultMap r ++ [r])) :
  ¬ Fits budget before r
  := by
  have hperm := perm_above h hsplit
  have hle := tokenCount_filter_le (fun other => byRank other r = .lt) before
  have habove := tokenCount_perm hperm
  rw [above] at habove
  rintro (rfl | hfits)
  · apply hne hperm.eq_nil
  · rw [tokenCount_append] at hfits hover
    rw [above] at *
    omega

/-- Nothing but what comes strictly before an entry is ranked before it, when nothing there ties
with it. -/
theorem perm_before (huntied : ∀ other ∈ before, byRank other r ≠ .eq) :
  (above resultMap r).Perm before
  := by
  have hsorted := pairwise_ranking sorting orders h
  rw [hsplit] at hsorted
  have hbefore : above before r = before := filter_lt_of_untied hsorted huntied
  rw [← hbefore]
  apply perm_above h hsplit

omit h in
/-- An entry that ties with no other ties with nothing before it. -/
theorem before_untied (hnodup : resultMap.Nodup)
    (huntied : ∀ r' ∈ resultMap, byRank r' r = .eq → r' = r) :
  ∀ other ∈ before, byRank other r ≠ .eq
  := by
  intro other hother htied
  have hrank := hnodup.perm (perm_ranking sorting orders resultMap).symm
  have hmap : other ∈ resultMap := by
    apply (perm_ranking sorting orders resultMap).mem_iff.mp
    rw [hsplit]
    apply List.mem_append_left _ hother
  obtain rfl := huntied other hmap htied
  rw [hsplit] at hrank
  apply (List.nodup_append.mp hrank).2.2 other hother other List.mem_cons_self rfl

end Split

variable (sorting orders) in
theorem nodup_ranked (hnodup : resultMap.Nodup) :
  (ranked sorting orders budget resultMap).1.Nodup
  := by
  obtain ⟨kept, hinit, hranked⟩ := ranked_isPrefix sorting orders budget resultMap
  rw [hranked]
  apply List.Nodup.sublist hinit.sublist
  apply hnodup.perm (perm_ranking sorting orders resultMap).symm

/-! ### Ties that are cut off -/

section Ties

variable (h : TotalPreorder byRank resultMap) (hnodup : resultMap.Nodup)
  (hties : TiesCutOff budget resultMap)

include h hnodup hties

/-- Which entries are kept, whatever the order of the map. -/
theorem mem_ranked_of_ties :
  r ∈ (ranked sorting orders budget resultMap).1 ↔
    r ∈ resultMap ∧ (∀ r' ∈ resultMap, byRank r' r = .eq → r' = r)
      ∧ Fits budget (above resultMap r) r
  := by
  rw [mem_ranked_iff]
  constructor
  · rintro ⟨before, after, hsplit, hfits⟩
    have hr : r ∈ resultMap := by
      apply (perm_ranking sorting orders resultMap).mem_iff.mp
      rw [hsplit]
      apply List.mem_append_right _ List.mem_cons_self
    have huntied : ∀ r' ∈ resultMap, byRank r' r = .eq → r' = r := by
      intro r' hr' htied
      by_contra hne
      obtain ⟨habove, hover⟩ := hties r hr r' hr' hne htied
      apply not_fits_of_above h hsplit habove hover hfits
    use hr, huntied
    apply (fits_perm (perm_before h hsplit (before_untied hsplit hnodup huntied))).mpr hfits
  · rintro ⟨hr, huntied, hfits⟩
    have hrank := (perm_ranking sorting orders resultMap).mem_iff.mpr hr
    obtain ⟨before, after, hsplit⟩ := List.append_of_mem hrank
    use before, after, hsplit
    apply (fits_perm (perm_before h hsplit (before_untied hsplit hnodup huntied))).mp hfits

variable (sorting orders) in
/-- What is kept is strictly in order. -/
theorem pairwise_ranked_of_ties :
  (ranked sorting orders budget resultMap).1.Pairwise (fun a b => byRank a b = .lt)
  := by
  obtain ⟨kept, hinit, hranked⟩ := ranked_isPrefix sorting orders budget resultMap
  have hsorted := (pairwise_ranking sorting orders h).sublist
    hinit.sublist
  have hdistinct := (hnodup.perm (perm_ranking sorting orders resultMap).symm).sublist
    hinit.sublist
  have hmem : ∀ r, r ∈ kept ↔ r ∈ (ranked sorting orders budget resultMap).1 := by
    intro r
    rw [hranked]
  rw [hranked]
  apply (hsorted.and hdistinct).imp_of_mem
  intro a b ha hb hab
  obtain ⟨hamap, -⟩ := (mem_ranked_of_ties h hnodup hties).mp ((hmem a).mp ha)
  obtain ⟨-, huntied, -⟩ := (mem_ranked_of_ties h hnodup hties).mp ((hmem b).mp hb)
  cases hrank : byRank a b with
  | lt => rfl
  | eq => cases hab.2 (huntied a hamap hrank)
  | gt => cases hab.1 hrank

/-- Two orders of the map lead to the same result. -/
theorem ranked_eq_of_ties (orders' : Orders F) :
  ranked sorting orders budget resultMap = ranked sorting orders' budget resultMap
  := by
  have hkept : (ranked sorting orders budget resultMap).1
      = (ranked sorting orders' budget resultMap).1 := by
    have hsorted := pairwise_ranked_of_ties sorting orders h hnodup hties
    have hsorted' := pairwise_ranked_of_ties sorting orders' h hnodup hties
    have hasymm : ∀ a b : ContextResult F, a ∈ resultMap → b ∈ resultMap → byRank a b = .lt →
        byRank b a = .lt → a = b := by
      intro a b ha hb hab hba
      have hswap := h.swap a ha b hb
      rw [hab, hba] at hswap
      cases hswap
    have hperm := (List.perm_ext_iff_of_nodup (nodup_ranked sorting orders hnodup)
      (nodup_ranked sorting orders' hnodup)).mpr (by
        intro r
        rw [mem_ranked_of_ties h hnodup hties, mem_ranked_of_ties h hnodup hties])
    apply hperm.eq_of_pairwise _ hsorted hsorted'
    intro a b ha hb
    apply hasymm a b (mem_ranked ha) (mem_ranked hb)
  obtain ⟨kept, -, hranked⟩ := ranked_isPrefix sorting orders budget resultMap
  obtain ⟨kept', -, hranked'⟩ := ranked_isPrefix sorting orders' budget resultMap
  rw [hranked, hranked'] at hkept ⊢
  rw [show kept = kept' from hkept]

end Ties

/-! ### Ties that are not -/

section Order

variable (h : TotalPreorder byRank resultMap) (hnodup : resultMap.Nodup) {r' : ContextResult F}

include h

variable (sorting orders) in
/-- Of two entries of equal score the one that the map yields first is ranked first. -/
theorem sublist_ranking_first [DecidableEq (ContextResult F)] (hr : r ∈ resultMap)
    (hr' : r' ∈ resultMap) (hne : r' ≠ r) (htied : byRank r' r = .eq) :
  [r, r'].Sublist (ranking sorting { orders with results := Scan.first r } resultMap)
  := by
  have hperm := (Scan.first r).perm resultMap
  have hle : byRank r r' ≠ .gt := by
    rw [h.swap r' hr' r hr, htied]
    decide
  apply sorting.sublist_sort (h.perm hperm) hle
  have horder : (Scan.first r).order resultMap = r :: resultMap.erase r := if_pos hr
  rw [horder]
  apply List.Sublist.cons_cons
  apply List.singleton_sublist.mpr
  apply (List.mem_erase_of_ne hne).mpr hr'

include hnodup

variable (sorting orders) in
/-- The entry that the map yields first is kept when it fits behind those above it. -/
theorem mem_ranked_first [DecidableEq (ContextResult F)] (hr : r ∈ resultMap)
    (hfits : Fits budget (above resultMap r) r) :
  r ∈ (ranked sorting { orders with results := Scan.first r } budget resultMap).1
  := by
  have hperm := perm_ranking sorting { orders with results := Scan.first r } resultMap
  have hrank := hnodup.perm hperm.symm
  obtain ⟨before, after, hsplit⟩ := List.append_of_mem (hperm.mem_iff.mpr hr)
  apply (mem_ranked_iff _ _).mpr
  use before, after, hsplit
  apply (fits_perm (perm_before h hsplit _)).mp hfits
  intro other hother htied
  have hmap : other ∈ resultMap := by
    apply hperm.mem_iff.mp
    rw [hsplit]
    apply List.mem_append_left _ hother
  have hbehind : [other, r].Sublist
      (ranking sorting { orders with results := Scan.first r } resultMap) := by
    rw [hsplit]
    apply List.Sublist.append (List.singleton_sublist.mpr hother)
    apply List.singleton_sublist.mpr List.mem_cons_self
  have hne : other ≠ r := by
    rintro rfl
    cases List.nodup_cons.mp (hrank.sublist hbehind) with
    | intro hnot _ => apply hnot List.mem_cons_self
  apply not_sublist_swap hrank hbehind
  apply sublist_ranking_first sorting orders h hr hmap hne htied

/-- When the order of the map does not matter, ties are cut off. -/
theorem ties_of_ranked_eq
    (hsame : ∀ scan scan' : Scan (ContextResult F),
      ranked sorting { orders with results := scan } budget resultMap
        = ranked sorting { orders with results := scan' } budget resultMap) :
  TiesCutOff budget resultMap
  := by
  classical
  intro r hr r' hr' hne htied
  by_contra hnot
  have hfits : Fits budget (above resultMap r) r := by
    by_cases hnil : above resultMap r = []
    · apply Or.inl hnil
    · apply Or.inr
      apply not_lt.mp
      intro hover
      apply hnot ⟨hnil, hover⟩
  have hswap : byRank r r' = .eq := by
    rw [h.swap r' hr' r hr, htied]
    rfl
  have hkept := mem_ranked_first sorting orders h hnodup hr hfits
  have hfirst := sublist_ranking_first sorting orders h hr hr' hne htied
  have hsecond := sublist_ranking_first sorting orders h hr' hr hne.symm hswap
  obtain ⟨kept, hinit, hranked⟩ :=
    ranked_isPrefix sorting { orders with results := Scan.first r } budget resultMap
  obtain ⟨kept', hinit', hranked'⟩ :=
    ranked_isPrefix sorting { orders with results := Scan.first r' } budget resultMap
  rw [hranked] at hkept
  have heq := hsame (Scan.first r) (Scan.first r')
  rw [hranked, hranked'] at heq
  obtain rfl : kept = kept' := (Prod.mk.inj heq).1
  have hnodup₁ := hnodup.perm
    (perm_ranking sorting { orders with results := Scan.first r } resultMap).symm
  have hnodup₂ := hnodup.perm
    (perm_ranking sorting { orders with results := Scan.first r' } resultMap).symm
  apply not_sublist_swap hnodup₁ hfirst
  apply (pair_sublist_of_isPrefix hnodup₂ hinit' hsecond hkept).trans hinit.sublist

end Order

end Ranked

end ContextResult

/-! ### Two runs of a program -/

namespace MemoryM

variable {α β : Type} {s : MemoryState}

/-- The state determines what the program returns and leaves. -/
def Deterministic (program : MemoryM α) : Prop :=
  ∀ s x s₁ y s₂, program.Runs s x s₁ → program.Runs s y s₂ → x = y ∧ s₁ = s₂

theorem deterministic_pure (a : α) :
  Deterministic (pure a)
  := by
  intro s x s₁ y s₂ hx hy
  obtain ⟨rfl, rfl⟩ := runs_pure.mp hx
  obtain ⟨rfl, rfl⟩ := runs_pure.mp hy
  exact ⟨rfl, rfl⟩

theorem deterministic_withConnection (c : Connection MemoryTables α) :
  Deterministic (withConnection c)
  := by
  intro s x s₁ y s₂ hx hy
  obtain ⟨x, hon, hissued, rfl⟩ := runs_withConnection.mp hx
  obtain ⟨y, hon', hissued', rfl⟩ := runs_withConnection.mp hy
  obtain ⟨rfl, hdb⟩ := Prod.mk.inj (hon.symm.trans hon')
  obtain ⟨db, issued⟩ := s₁
  obtain ⟨db', issued'⟩ := s₂
  obtain rfl : db = db' := hdb
  obtain rfl : issued = s.issued := hissued
  obtain rfl : issued' = s.issued := hissued'
  exact ⟨rfl, rfl⟩

theorem Deterministic.bind {program : MemoryM α} {f : α → MemoryM β} (h : Deterministic program)
    (hf : ∀ a, Deterministic (f a)) :
  Deterministic (program >>= f)
  := by
  intro s x s₁ y s₂ hx hy
  rcases runs_bind.mp hx with ⟨a, s', hprogram, hrest⟩ | ⟨e, rfl, hprogram⟩
  · rcases runs_bind.mp hy with ⟨a', s'', hprogram', hrest'⟩ | ⟨e', rfl, hprogram'⟩
    · obtain ⟨ha, rfl⟩ := h s _ _ _ _ hprogram hprogram'
      obtain rfl := Except.ok.inj ha
      apply hf a s' x s₁ y s₂ hrest hrest'
    · cases (h s _ _ _ _ hprogram hprogram').1
  · rcases runs_bind.mp hy with ⟨a', s'', hprogram', hrest'⟩ | ⟨e', rfl, hprogram'⟩
    · cases (h s _ _ _ _ hprogram hprogram').1
    · obtain ⟨he, hs⟩ := h s _ _ _ _ hprogram hprogram'
      rw [Except.error.inj he]
      exact ⟨rfl, hs⟩

theorem Deterministic.result {program : MemoryM α} (h : Deterministic program) :
  Deterministic program.result
  := by
  have hresult : ∀ {s : MemoryState} {x : Except String (Except String α)} {s₁ : MemoryState},
      program.result.Runs s x s₁ ↔ ∃ a, program.Runs s a s₁ ∧ x = .ok a := Program.exec_map
  intro s x s₁ y s₂ hx hy
  obtain ⟨a, ha, rfl⟩ := hresult.mp hx
  obtain ⟨b, hb, rfl⟩ := hresult.mp hy
  obtain ⟨rfl, hs⟩ := h s a s₁ b s₂ ha hb
  exact ⟨rfl, hs⟩

end MemoryM

/-! ### Two runs of a search -/

section Search

variable {F : Type} [SingleFloat F] (sorting : SortBy) (orders : Orders F) (codec : TagCodec)

namespace HybridSearch

/-- What a search merges before it ranks: the entries of its map of results. -/
def merged (project query : String) (vector : Option (List F)) (budget : ℕ)
    (category : Option String) : MemoryM (List (ContextResult F)) := do
  let fetchLimit := max budget 20
  let keywordResults ←
    MemoryStorage.searchMemoriesKeyword orders.memories codec project query category fetchLimit
  let resultMap := ContextResult.ofKeywords keywordResults
  match vector with
  | none => pure resultMap
  | some queryVec => do
      let vectorResults ← EmbeddingStore.searchSimilar sorting orders.embeddings project queryVec
        "default" fetchLimit
      ContextResult.mergeVectors
        (fun id => (MemoryStorage.getMemory orders.memories codec id).result)
        resultMap vectorResults

variable {sorting orders codec} {project query : String} {vector : Option (List F)} {budget : ℕ}
  {category : Option String} {s s' : MemoryState}

theorem getContext_eq :
  getContext sorting orders codec project query vector budget category
    = merged sorting orders codec project query vector budget category >>= fun resultMap =>
      pure (ContextResult.ranked sorting orders budget resultMap)
  := by
  cases vector with
  | none => simp only [getContext, merged, bind_assoc, pure_bind]
  | some queryVec => simp only [getContext, merged, bind_assoc]

theorem deterministic_mergeVectors {lookup : String → MemoryM (Except String (Option Memory))}
    (h : ∀ id, (lookup id).Deterministic) (resultMap : List (ContextResult F))
    (entities : List (String × String × F)) :
  (ContextResult.mergeVectors lookup resultMap entities).Deterministic
  := by
  induction entities generalizing resultMap with
  | nil => apply MemoryM.deterministic_pure
  | cons e entities ih =>
      obtain ⟨entityType, entityId, similarity⟩ := e
      rw [ContextResult.mergeVectors]
      split
      · apply ih
      · cases resultMap.find? (fun result => result.id = entityId) with
        | some existing => apply ih
        | none =>
            apply (h entityId).bind
            intro found
            rcases found with err | (_ | mem)
            · apply ih
            · apply ih
            · apply ih

theorem deterministic_merged :
  (merged sorting orders codec project query vector budget category).Deterministic
  := by
  have hkeyword : (MemoryStorage.searchMemoriesKeyword orders.memories codec project query category
      (max budget 20)).Deterministic := by
    rw [MemoryStorage.searchMemoriesKeyword]
    split
    · apply MemoryM.deterministic_withConnection
    · apply MemoryM.deterministic_withConnection
  apply hkeyword.bind
  intro memories
  cases vector with
  | none => apply MemoryM.deterministic_pure
  | some queryVec =>
      apply (MemoryM.deterministic_withConnection _).bind
      intro entities
      apply deterministic_mergeVectors
      intro id
      apply MemoryM.Deterministic.result (MemoryM.deterministic_withConnection _)

/-- The ids of what a search merges are distinct. -/
theorem nodup_merged {resultMap : List (ContextResult F)}
    (h : (merged sorting orders codec project query vector budget category).Runs s
      (.ok resultMap) s') :
  (ContextResult.ids resultMap).Nodup
  := by
  rcases MemoryM.runs_bind.mp h with ⟨memories, s₁, -, hrest⟩ | ⟨e, he, -⟩
  · have hkeywords := ContextResult.nodup_ofKeywords (F := F) memories
    cases vector with
    | none =>
        obtain ⟨hmap, -⟩ := MemoryM.runs_pure.mp hrest
        rw [Except.ok.inj hmap]
        apply hkeywords
    | some queryVec =>
        rcases MemoryM.runs_bind.mp hrest with ⟨entities, s₂, -, hmerge⟩ | ⟨e, he, -⟩
        · apply ContextResult.nodup_mergeVectors hmerge hkeywords
        · cases he
  · cases he

/-- A search ranks what it merges. -/
theorem runs_getContext {r : Except String (List (ContextResult F) × ℕ)} :
  (getContext sorting orders codec project query vector budget category).Runs s r s'
    ↔ ∃ x, (merged sorting orders codec project query vector budget category).Runs s x s'
      ∧ r = x.map (ContextResult.ranked sorting orders budget)
  := by
  rw [getContext_eq, MemoryM.runs_bind]
  constructor
  · rintro (⟨resultMap, s₁, hmerged, hrest⟩ | ⟨e, rfl, hmerged⟩)
    · obtain ⟨rfl, rfl⟩ := MemoryM.runs_pure.mp hrest
      exact ⟨.ok resultMap, hmerged, rfl⟩
    · exact ⟨.error e, hmerged, rfl⟩
  · rintro ⟨e | resultMap, hmerged, rfl⟩
    · exact Or.inr ⟨e, rfl, hmerged⟩
    · exact Or.inl ⟨resultMap, s', hmerged, MemoryM.runs_pure.mpr ⟨rfl, rfl⟩⟩

end HybridSearch

/-- Two runs of a search that differ in the order that the map of results yields return the
same exactly if the budget cuts off the entries of equal score, provided that the scores can be
compared. -/
theorem same_for_all_hash_orders_iff {s : MemoryState} (project query : String)
    (vector : Option (List F)) (budget : ℕ) (category : Option String)
    (h : ∀ resultMap s', (HybridSearch.merged sorting orders codec project query vector budget
      category).Runs s (.ok resultMap) s' → TotalPreorder ContextResult.byRank resultMap) :
  (∀ (scan scan' : Scan (ContextResult F)) (r r' : Except String (List (ContextResult F) × ℕ))
      (s' s'' : MemoryState),
    (HybridSearch.getContext sorting { orders with results := scan } codec project query vector
      budget category).Runs s r s' →
    (HybridSearch.getContext sorting { orders with results := scan' } codec project query vector
      budget category).Runs s r' s'' → r = r')
  ↔ ∀ resultMap s', (HybridSearch.merged sorting orders codec project query vector budget
      category).Runs s (.ok resultMap) s' → ContextResult.TiesCutOff budget resultMap
  := by
  constructor
  · intro hsame resultMap s' hmerged
    have hnodup := List.Nodup.of_map _ (HybridSearch.nodup_merged hmerged)
    apply ContextResult.ties_of_ranked_eq (h resultMap s' hmerged) hnodup
    intro scan scan'
    have hrun : ∀ scan : Scan (ContextResult F), (HybridSearch.getContext sorting
        { orders with results := scan } codec project query vector budget category).Runs s
        (.ok (ContextResult.ranked sorting { orders with results := scan } budget resultMap))
        s' := by
      intro scan
      apply HybridSearch.runs_getContext.mpr
      use .ok resultMap, hmerged
      rfl
    apply Except.ok.inj (hsame scan scan' _ _ _ _ (hrun scan) (hrun scan'))
  · intro hties scan scan' r r' s' s'' hr hr'
    obtain ⟨x, hmerged, rfl⟩ := HybridSearch.runs_getContext.mp hr
    obtain ⟨y, hmerged', rfl⟩ := HybridSearch.runs_getContext.mp hr'
    obtain ⟨rfl, -⟩ := HybridSearch.deterministic_merged s _ _ _ _ hmerged hmerged'
    rcases x with e | resultMap
    · rfl
    · have hnodup := List.Nodup.of_map _ (HybridSearch.nodup_merged hmerged)
      apply congrArg Except.ok
      apply ContextResult.ranked_eq_of_ties (h resultMap s' hmerged) hnodup
      apply hties resultMap s' hmerged

end Search

/-! ### Two notes of equal score -/

/-- A score does not come behind itself. -/
theorem byScore_self_ne_gt (x : F32) :
  byScore x x ≠ .gt
  := by
  rw [byScore]
  simp only [SingleFloat.partialCmp]
  split
  · decide
  · split
    · decide
    · decide

/-- Two notes with the same embedding. -/
def twinNotes : MemoryState where
  db :=
    { tables :=
        { MemoryTables.empty with
          memories := [noteRow "m1" "alpha" "first", noteRow "m2" "alpha" "second"]
          embeddings :=
            [(MemoryTools.memoryEmbedding "e1" "m1" "alpha" [(⟨0x3f800000⟩ : F32)]).row,
              (MemoryTools.memoryEmbedding "e2" "m2" "alpha" [(⟨0x3f800000⟩ : F32)]).row] }
      faults := [] }
  issued := ["e2", "m2", "e1", "m1"]

/-- The score of both for their own vector. -/
def twinScore : F32 :=
  cosineSimilarity [⟨0x3f800000⟩] [⟨0x3f800000⟩]

def twin (id content : String) : ContextResult F32 :=
  { id, content, category := "notes", score := twinScore, source := "vector" }

theorem resultMap_twinNotes (results : Scan (ContextResult F32)) :
  twinNotes.db.tables.resultMap SortBy.merge { insertedOrders with results := results } noTags
    "alpha" (some [⟨0x3f800000⟩]) 20 [] = [twin "m1" "first", twin "m2" "second"]
  := by
  have hsimilar : twinNotes.db.tables.similarEntities SortBy.merge insertedOrders.embeddings
      "alpha" [⟨0x3f800000⟩] "default" 20
      = [("memory", "m1", twinScore), ("memory", "m2", twinScore)] := by
    have hsorted := List.mergeSort_of_pairwise (List.pairwise_pair.mpr (bne_iff_ne.mpr
      (byScore_self_ne_gt twinScore)) : [("memory", "m1", twinScore),
        ("memory", "m2", twinScore)].Pairwise (fun a b => (byScore a.2.2 b.2.2 != .gt) = true))
    exact congrArg (List.take 20) hsorted
  rw [MemoryTables.resultMap]
  dsimp only
  rw [hsimilar]
  rfl

theorem keywordRows_twinNotes :
  twinNotes.db.tables.keywordRows insertedOrders.memories "alpha" "zebra" none 20 = .ok []
  := by
  have hwords : splitWhitespace "zebra" = ["zebra"] := by decide
  have hall : (twinNotes.db.tables.projectMemories "alpha" none).all
      (fun row => (MemoryTables.rowMatches row ["zebra"]).isOk) = true := by decide
  have hnone : (twinNotes.db.tables.projectMemories "alpha" none).filter
      (fun row => (MemoryTables.rowMatches row ["zebra"]).toOption = some true) = [] := by decide
  have hlimit : asI64 20 ≠ 0 := by decide
  simp only [MemoryTables.keywordRows, hwords, List.isEmpty_cons, Bool.false_eq_true, if_false,
    MemoryTables.matchingRows, if_neg hlimit, hall, if_true, hnone]
  exact congrArg (fun rows => Except.ok (Sql.limit (asI64 20) rows)) List.mergeSort_nil

/-- The budget keeps one of the notes, the one that the map yields first. -/
theorem runs_getContext_twinNotes (results : Scan (ContextResult F32)) {r r' : ContextResult F32}
    (horder : results.order [twin "m1" "first", twin "m2" "second"] = [r, r'])
    (hr : r.score = twinScore) (hr' : r'.score = twinScore)
    (hcontent : estimateTokens r.content = 2) (hcontent' : estimateTokens r'.content = 2) :
  (HybridSearch.getContext SortBy.merge { insertedOrders with results := results } noTags "alpha"
    "zebra" (some [⟨0x3f800000⟩]) 2 none).Runs twinNotes (.ok ([r], 2)) twinNotes
  := by
  have hreliable : twinNotes.db.Reliable := rfl
  apply (HybridSearch.runs_getContext_ok hreliable).mpr
  use rfl, [], keywordRows_twinNotes
  have hsorted : ContextResult.ranking SortBy.merge { insertedOrders with results := results }
      [twin "m1" "first", twin "m2" "second"] = [r, r'] := by
    rw [ContextResult.ranking]
    dsimp only
    rw [horder]
    apply List.mergeSort_of_pairwise
    apply List.pairwise_pair.mpr
    dsimp only
    rw [hr, hr']
    apply bne_iff_ne.mpr (byScore_self_ne_gt twinScore)
  have hcount : ContextResult.tokenCount [r] = 2 := hcontent
  have hover : ¬ ContextResult.Fits 2 [r] r' := by
    rintro (hnil | hfits)
    · cases hnil
    · have hcount' : ContextResult.tokenCount [r'] = 2 := hcontent'
      rw [ContextResult.tokenCount_append, hcount, hcount'] at hfits
      omega
  calc ([r], 2)
      = ([r], ContextResult.tokenCount [r]) := by rw [hcount]
    _ = ContextResult.truncate 2 (ContextResult.tokenCount [r]) [r] [r'] :=
      (ContextResult.truncate_cons_of_not hover).symm
    _ = ContextResult.truncate 2 (ContextResult.tokenCount []) [] [r, r'] :=
      (ContextResult.truncate_cons (Or.inl rfl)).symm
    _ = ContextResult.ranked SortBy.merge { insertedOrders with results := results } 2
        [twin "m1" "first", twin "m2" "second"] := by
      rw [← hsorted]
      rfl
    _ = _ := by
      rw [← resultMap_twinNotes results]
      rfl

/-- Which of the notes is returned depends on the order of the map. -/
theorem not_same_for_all_hash_orders_twinNotes :
  ∃ scan scan' : Scan (ContextResult F32),
    (HybridSearch.getContext SortBy.merge { insertedOrders with results := scan } noTags "alpha"
      "zebra" (some [⟨0x3f800000⟩]) 2 none).Runs twinNotes (.ok ([twin "m1" "first"], 2)) twinNotes
    ∧ (HybridSearch.getContext SortBy.merge { insertedOrders with results := scan' } noTags "alpha"
      "zebra" (some [⟨0x3f800000⟩]) 2 none).Runs twinNotes (.ok ([twin "m2" "second"], 2))
      twinNotes
    ∧ twin "m1" "first" ≠ twin "m2" "second"
  := by
  use Scan.inserted, Scan.reversed
  constructor
  · exact runs_getContext_twinNotes Scan.inserted rfl rfl rfl (by decide) (by decide)
  · constructor
    · exact runs_getContext_twinNotes Scan.reversed rfl rfl rfl (by decide) (by decide)
    · intro hsame
      apply absurd (congrArg ContextResult.id hsame)
      decide

/-! ### Two notes of different scores -/

/-- Scores whose arithmetic is exact, as that of `f32` is on halves; what a keyword search does not
use (bits, square roots, JSON) is left out. -/
structure ExactScore where
  value : ℚ

instance : SingleFloat ExactScore where
  add a b := ⟨a.value + b.value⟩
  sub a b := ⟨a.value - b.value⟩
  mul a b := ⟨a.value * b.value⟩
  div a b := ⟨a.value / b.value⟩
  toBits _ := 0
  ofBits _ := ⟨0⟩
  ofF64 _ := ⟨0⟩
  ofRat q := ⟨q⟩
  sum xs := ⟨(xs.map ExactScore.value).sum⟩
  sqrt := id
  partialCmp a b := some (compare a.value b.value)
  toJson _ := .null

theorem byRank_ne_gt_iff {a b : ContextResult ExactScore} :
  ContextResult.byRank a b ≠ .gt ↔ b.score.value ≤ a.score.value
  := compare_le_iff_le

theorem totalPreorder_exact (resultMap : List (ContextResult ExactScore)) :
  TotalPreorder ContextResult.byRank resultMap
  := by
  constructor
  · intro a _ b _
    exact Std.OrientedOrd.eq_swap
  · intro a _ b _ c _ hab hbc
    rw [byRank_ne_gt_iff] at *
    apply hbc.trans hab

/-- The orders of insertion, for exact scores. -/
def exactOrders : Orders ExactScore :=
  ⟨.inserted, .inserted, .inserted, .inserted⟩

/-- The entries of a keyword search for both notes. -/
def ranks : List (ContextResult ExactScore) :=
  [{ id := "m1", content := "first", category := "notes", score := ContextResult.keywordScore 0 2,
     source := "keyword" },
    { id := "m2", content := "second", category := "notes",
      score := ContextResult.keywordScore 1 2, source := "keyword" }]

theorem merged_keywords {resultMap : List (ContextResult ExactScore)} {s' : MemoryState}
    (h : (HybridSearch.merged SortBy.merge exactOrders noTags "alpha" "" none 2000 none).Runs
      twinNotes (.ok resultMap) s') :
  resultMap = ranks
  := by
  have hreliable : twinNotes.db.Reliable := rfl
  have hrows : twinNotes.db.tables.recentRows exactOrders.memories "alpha" none 2000
      = [noteRow "m1" "alpha" "first", noteRow "m2" "alpha" "second"] := by
    have hsorted := List.mergeSort_of_pairwise (List.pairwise_pair.mpr (by decide) :
      [noteRow "m1" "alpha" "first", noteRow "m2" "alpha" "second"].Pairwise
        (fun a b => MemoryTables.byUpdatedAt a b = true))
    exact congrArg (Sql.limit (asI64 2000)) hsorted
  have hreads := MemoryStorage.reads_searchMemoriesKeyword exactOrders.memories noTags hreliable
    "alpha" "" none 2000
  rw [keywordRows_of_noWords, hrows] at hreads
  rcases MemoryM.runs_bind.mp h with ⟨memories, s₁, hkeywords, hrest⟩ | ⟨e, he, -⟩
  · obtain ⟨hmemories, -⟩ := (hreads _ _).mp hkeywords
    obtain ⟨hmap, -⟩ := MemoryM.runs_pure.mp hrest
    rw [Except.ok.inj hmap, Except.ok.inj hmemories]
    rfl
  · cases he

/-- The order of the map does not matter for the notes of a keyword search. -/
theorem same_for_all_hash_orders_keywords :
  ∃ found, (HybridSearch.getContext (F := ExactScore) SortBy.merge
      { exactOrders with results := Scan.inserted } noTags "alpha" "" none 2000 none).Runs twinNotes
      (.ok found) twinNotes
    ∧ (HybridSearch.getContext (F := ExactScore) SortBy.merge
      { exactOrders with results := Scan.reversed } noTags "alpha" "" none 2000 none).Runs twinNotes
      (.ok found) twinNotes
  := by
  have hreliable : twinNotes.db.Reliable := rfl
  have hrun : ∀ scan : Scan (ContextResult ExactScore), ∃ found, (HybridSearch.getContext
      SortBy.merge { exactOrders with results := scan } noTags "alpha" "" none 2000 none).Runs
      twinNotes (.ok found) twinNotes := by
    intro scan
    exact ⟨_, (HybridSearch.runs_getContext_ok hreliable).mpr
      ⟨rfl, _, keywordRows_of_noWords _ "alpha" none 2000 _, rfl⟩⟩
  obtain ⟨found, hfound⟩ := hrun Scan.inserted
  obtain ⟨found', hfound'⟩ := hrun Scan.reversed
  have hties : ContextResult.TiesCutOff 2000 ranks := by
    intro r hr r' hr' hne htied
    have hvalue : r'.score.value = r.score.value := (compare_eq_iff_eq.mp htied).symm
    have hscores : (ContextResult.keywordScore 0 2 : ExactScore).value
        ≠ (ContextResult.keywordScore 1 2 : ExactScore).value := by
      decide +kernel
    simp only [ranks, List.mem_cons, List.not_mem_nil, or_false] at hr hr'
    rcases hr with rfl | rfl
    · rcases hr' with rfl | rfl
      · cases hne rfl
      · cases hscores hvalue.symm
    · rcases hr' with rfl | rfl
      · cases hscores hvalue
      · cases hne rfl
  have hsame := (same_for_all_hash_orders_iff SortBy.merge exactOrders noTags "alpha" "" none 2000
    none (fun resultMap _ _ => totalPreorder_exact resultMap)).mpr
    (fun resultMap _ hmerged => merged_keywords hmerged ▸ hties)
    Scan.inserted Scan.reversed _ _ _ _ hfound hfound'
  use found, hfound
  rw [Except.ok.inj hsame]
  apply hfound'

end OrchestraRag
