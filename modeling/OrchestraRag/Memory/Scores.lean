import Mathlib.Analysis.Real.Sqrt
import OrchestraRag.Library.Cosine
import OrchestraRag.Memory.HashOrder
import OrchestraRag.Memory.Merge

/-!
# The range of scores

With exact arithmetic and square roots (`RootFloat`) the similarity of two vectors is the cosine of
the angle between them.  So it does not depend on which of them is asked for, nor on their
magnitudes (`similarity_is_cosine`), and every score that a search returns lies between `-1` and
`1`, that of a keyword result above one half (`scores_in_range`).
-/

namespace OrchestraRag

open Sql

/-- Scores with exact arithmetic and square roots. -/
class RootFloat (F : Type) [SingleFloat F] (K : outParam Type) [Field K] [LinearOrder K]
    extends ExactFloat F K where
  root : K → K
  isRoot : Cosine.IsRoot root
  value_sum : ∀ xs : List F, value (SingleFloat.sum xs) = (xs.map value).sum
  value_sqrt : ∀ a : F, value (SingleFloat.sqrt a) = root (value a)

section Scores

variable {F : Type} [SingleFloat F] {K : Type} [Field K] [LinearOrder K] [IsStrictOrderedRing K]
  [RootFloat F K]

open ExactFloat RootFloat

/-- The values of the coordinates of a vector. -/
abbrev values (vector : List F) : List K :=
  vector.map value

/-! ### Similarity -/

omit [IsStrictOrderedRing K] in
theorem floatEq_eq_true_iff {a b : F} :
  floatEq a b = true ↔ value a = value b
  := by
  rw [floatEq, partialCmp_eq, beq_iff_eq, Option.some_inj, compare_eq_iff_eq]

omit [IsStrictOrderedRing K] in
theorem value_dot (a b : List F) :
  value (SingleFloat.sum (List.zipWith (· * ·) a b)) = Cosine.dot (values a) (values b)
  := by
  rw [value_sum, Cosine.dot, List.map_zipWith, List.zipWith_map]
  simp only [value_mul]

omit [IsStrictOrderedRing K] in
theorem value_magnitude (a : List F) :
  value (SingleFloat.sqrt (SingleFloat.sum (a.map (fun x => x * x))))
    = root F (Cosine.dot (values a) (values a))
  := by
  rw [value_sqrt, value_sum, Cosine.dot_self, List.map_map, List.map_map]
  simp only [Function.comp_def, value_mul]

omit [IsStrictOrderedRing K] in
/-- The similarity of two vectors of the same length is the cosine of their values. -/
theorem value_cosineSimilarity (a b : List F) :
  value (cosineSimilarity a b)
    = if a.length = b.length then Cosine.cosine (root F) (values a) (values b) else 0
  := by
  have hzero : value (SingleFloat.ofRat 0 : F) = 0 := by rw [value_ofRat, Rat.cast_zero]
  rw [cosineSimilarity]
  by_cases hlength : a.length = b.length
  · rw [if_neg (not_not.mpr hlength), if_pos hlength]
    simp only []
    split
    case isTrue hmagnitude =>
        rw [Bool.or_eq_true, floatEq_eq_true_iff, floatEq_eq_true_iff, value_magnitude,
          value_magnitude, hzero] at hmagnitude
        rw [hzero, Cosine.cosine]
        rcases hmagnitude with h | h
        · rw [h, zero_mul, div_zero]
        · rw [h, mul_zero, div_zero]
    case isFalse =>
        rw [value_div, value_mul, value_magnitude, value_magnitude, value_dot, Cosine.cosine]
  · rw [if_pos hlength, if_neg hlength, hzero]

theorem abs_cosineSimilarity_le_one (a b : List F) :
  |value (cosineSimilarity a b)| ≤ 1
  := by
  rw [value_cosineSimilarity]
  split
  · apply (isRoot (F := F)).abs_cosine_le_one
  · rw [abs_zero]
    apply zero_le_one

/-- The similarity of vectors lies between `-1` and `1`.  It is symmetric, that of a vector with
itself is `1` unless all its coordinates are zero, and a positive factor leaves it. -/
theorem similarity_is_cosine (a b : List F) :
  |value (cosineSimilarity a b)| ≤ 1
    ∧ value (cosineSimilarity a b) = value (cosineSimilarity b a)
    ∧ ((∃ x ∈ a, value x ≠ 0) → value (cosineSimilarity a a) = 1)
    ∧ ∀ (c : K) (a' : List F), 0 < c → values a' = Cosine.scale c (values a) →
      value (cosineSimilarity a' b) = value (cosineSimilarity a b)
  := by
  refine ⟨abs_cosineSimilarity_le_one a b, ?_, ?_, ?_⟩
  · rw [value_cosineSimilarity, value_cosineSimilarity, Cosine.cosine_comm]
    simp only [eq_comm]
  · rintro ⟨x, hx, hne⟩
    rw [value_cosineSimilarity, if_pos rfl]
    apply isRoot.cosine_self
    apply Cosine.dot_self_ne_zero (List.mem_map_of_mem hx) hne
  · intro c a' hc hscale
    have hlength : a'.length = a.length := by
      have hlengths := congrArg List.length hscale
      rw [Cosine.scale, List.length_map, List.length_map, List.length_map] at hlengths
      apply hlengths
    rw [value_cosineSimilarity, value_cosineSimilarity, hlength, hscale, isRoot.cosine_scale hc]

/-! ### Entries -/

/-- The score of an entry is in its range. -/
structure ContextResult.InRange (r : ContextResult F) : Prop where
  abs_le : |value r.score| ≤ 1
  keyword : r.source = "keyword" → 1 / 2 < value r.score

namespace ContextResult

omit [SingleFloat F] in
theorem forall_mem_insertAll {P : ContextResult F → Prop}
    {results resultMap : List (ContextResult F)}
    (hresultMap : ∀ r ∈ resultMap, P r) (hresults : ∀ r ∈ results, P r) :
  ∀ r ∈ insertAll results resultMap, P r
  := by
  induction results generalizing resultMap with
  | nil => apply hresultMap
  | cons result results ih =>
      apply ih
      · intro r hr
        rcases mem_insert hr with rfl | hr
        · apply hresults r List.mem_cons_self
        · apply hresultMap r hr
      · intro r hr
        apply hresults r (List.mem_cons_of_mem _ hr)

theorem inRange_ofKeyword {n i : ℕ} (h : i < n) (mem : Memory) :
  InRange (ofKeyword n (mem, i) : ContextResult F)
  := by
  have hvalue : value (ofKeyword n (mem, i) : ContextResult F).score = 1 - (i : K) / (2 * n) :=
    value_keywordScore h
  have hpos : (0 : K) < 2 * n := by
    have hn : (0 : K) < n := by exact_mod_cast (by omega : 0 < n)
    linarith
  have hi : (i : K) < n := by exact_mod_cast h
  have hquotient : (i : K) / (2 * n) < 1 / 2 := by
    rw [div_lt_div_iff₀ hpos two_pos]
    linarith
  have hnonneg : 0 ≤ (i : K) / (2 * n) := by positivity
  constructor
  · rw [hvalue, abs_le]
    constructor
    · linarith
    · linarith
  · intro _
    rw [hvalue]
    linarith

theorem inRange_hybrid {existing : ContextResult F} {similarity : F} (h : existing.InRange)
    (hsimilarity : |value similarity| ≤ 1) :
  InRange
    { existing with
      score := (existing.score + similarity) / SingleFloat.ofRat 2, source := "hybrid" }
  := by
  constructor
  · have hvalue : value ((existing.score + similarity) / SingleFloat.ofRat 2 : F)
        = (value existing.score + value similarity) / 2 := by
      rw [value_div, value_add, value_ofRat, Rat.cast_ofNat]
    have hexisting := abs_le.mp h.abs_le
    have hbound := abs_le.mp hsimilarity
    rw [hvalue, abs_le]
    constructor
    · linarith only [hexisting.1, hbound.1]
    · linarith only [hexisting.2, hbound.2]
  · intro hsource
    have hne : "hybrid" ≠ "keyword" := by decide
    cases hne hsource

/-- A merge of entities with similarities in their range keeps the scores in their range. -/
theorem inRange_mergeVectors {lookup : String → MemoryM (Except String (Option Memory))}
    {entities : List (String × String × F)} {resultMap merged : List (ContextResult F)}
    {s s' : MemoryState}
    (h : (mergeVectors lookup resultMap entities).Runs s (.ok merged) s')
    (hresultMap : ∀ r ∈ resultMap, r.InRange)
    (hentities : ∀ e ∈ entities, |value e.2.2| ≤ 1) :
  ∀ r ∈ merged, r.InRange
  := by
  induction entities generalizing resultMap s with
  | nil =>
      obtain ⟨hmerged, -⟩ := MemoryM.runs_pure.mp h
      rw [Except.ok.inj hmerged]
      apply hresultMap
  | cons e entities ih =>
      obtain ⟨found, resultMap', s₁, hmerges, hrest⟩ := runs_mergeVectors_cons h
      apply ih hrest
      · intro r hr
        cases hmerges with
        | skipped => apply hresultMap r hr
        | hybrid hexisting =>
            rcases mem_insert hr with rfl | hr
            · apply inRange_hybrid (hresultMap _ hexisting) (hentities e List.mem_cons_self)
            · apply hresultMap r hr
        | vector _ _ _ =>
            rcases mem_insert hr with rfl | hr
            · constructor
              · apply hentities e List.mem_cons_self
              · intro hsource
                have hne : "vector" ≠ "keyword" := by decide
                cases hne hsource
            · apply hresultMap r hr
      · intro e' he'
        apply hentities e' (List.mem_cons_of_mem _ he')

theorem inRange_ofKeywords (memories : List Memory) :
  ∀ r ∈ (ofKeywords memories : List (ContextResult F)), r.InRange
  := by
  rw [ofKeywords_eq]
  apply forall_mem_insertAll
  · intro r hr
    cases hr
  · intro r hr
    obtain ⟨⟨mem, i⟩, hfound, rfl⟩ := List.mem_map.mp hr
    apply inRange_ofKeyword
    have hi := List.getElem?_eq_some_iff.mp (List.mk_mem_zipIdx_iff_getElem?.mp hfound)
    apply hi.1

end ContextResult

/-! ### Searches -/

variable {sorting : SortBy} {orders : Orders F} {codec : TagCodec} {s s' : MemoryState}

theorem MemoryTables.similarity_mem_similarEntities {tables : MemoryTables}
    {scan : Scan EmbeddingRow} {project : String} {queryVector : List F} {model : String}
    {limit : ℕ} :
  ∀ e ∈ tables.similarEntities sorting scan project queryVector model limit,
    |value e.2.2| ≤ 1
  := by
  intro e he
  obtain ⟨row, -, rfl⟩ := List.mem_map.mp (SortBy.mem_sort.mp (List.mem_of_mem_take he))
  apply abs_cosineSimilarity_le_one

theorem HybridSearch.inRange_merged {project query : String} {vector : Option (List F)}
    {budget : ℕ} {category : Option String} {resultMap : List (ContextResult F)}
    (h : (merged sorting orders codec project query vector budget category).Runs s
      (.ok resultMap) s') :
  ∀ r ∈ resultMap, r.InRange
  := by
  rcases MemoryM.runs_bind.mp h with ⟨memories, s₁, -, hrest⟩ | ⟨e, he, -⟩
  · cases vector with
    | none =>
        obtain ⟨hmap, -⟩ := MemoryM.runs_pure.mp hrest
        rw [Except.ok.inj hmap]
        apply ContextResult.inRange_ofKeywords
    | some queryVec =>
        rcases MemoryM.runs_bind.mp hrest with ⟨entities, s₂, hsearch, hmerge⟩ | ⟨e, he, -⟩
        · apply ContextResult.inRange_mergeVectors hmerge
          · apply ContextResult.inRange_ofKeywords
          · rw [MemoryM.of_runs_query hsearch]
            apply MemoryTables.similarity_mem_similarEntities
        · cases he
  · cases he

/-- Whatever the storage does, every score that a search returns lies between `-1` and `1`, and
that of a result of its keywords alone is above one half. -/
theorem scores_in_range {project query : String} {vector : Option (List F)} {budget : ℕ}
    {category : Option String} {found : List (ContextResult F) × ℕ}
    (hrun : (HybridSearch.getContext sorting orders codec project query vector budget category).Runs
      s (.ok found) s') :
  ∀ r ∈ found.1, r.InRange
  := by
  obtain ⟨x, hmerged, hfound⟩ := HybridSearch.runs_getContext.mp hrun
  cases x with
  | error e => cases hfound
  | ok resultMap =>
      rw [Except.ok.inj hfound]
      intro r hr
      apply HybridSearch.inRange_merged hmerged r (ContextResult.mem_ranked hr)

end Scores

/-! ### Real numbers -/

/-- An `f32` as a real number, with exact arithmetic and roots; what a search does not use is
left out. -/
structure RealF32 where
  value : ℝ

namespace RealF32

noncomputable instance : SingleFloat RealF32 where
  add a b := ⟨a.value + b.value⟩
  sub a b := ⟨a.value - b.value⟩
  mul a b := ⟨a.value * b.value⟩
  div a b := ⟨a.value / b.value⟩
  toBits _ := 0
  ofBits bits := ⟨ExactF32.ofBits bits⟩
  ofF64 _ := ⟨0⟩
  ofRat q := ⟨q⟩
  sum xs := ⟨(xs.map value).sum⟩
  sqrt x := ⟨Real.sqrt x.value⟩
  partialCmp a b := some (compare a.value b.value)
  toJson _ := .null

noncomputable instance : RootFloat RealF32 ℝ where
  value := value
  value_add _ _ := rfl
  value_sub _ _ := rfl
  value_mul _ _ := rfl
  value_div _ _ := rfl
  value_ofRat _ := rfl
  partialCmp_eq _ _ := rfl
  root := Real.sqrt
  isRoot := ⟨fun x _ => Real.sqrt_nonneg x, fun _ hx => Real.mul_self_sqrt hx⟩
  value_sum _ := rfl
  value_sqrt _ := rfl

end RealF32

theorem similarity_is_cosine_real :
  ExactFloat.value (cosineSimilarity ([⟨3⟩, ⟨4⟩] : List RealF32) [⟨3⟩, ⟨4⟩]) = 1
  := by
  obtain ⟨-, -, hself, -⟩ := similarity_is_cosine ([⟨3⟩, ⟨4⟩] : List RealF32) [⟨3⟩, ⟨4⟩]
  apply hself
  use ⟨3⟩, List.mem_cons_self
  apply three_ne_zero (α := ℝ)

/-- The orders of insertion, for real numbers. -/
def insertedReal : Orders RealF32 :=
  ⟨.inserted, .inserted, .inserted, .inserted⟩

/-- A search for the two notes with a vector ends, and so its scores are in their range. -/
theorem scores_in_range_embeddedFirst :
  ∃ found, (HybridSearch.getContext SortBy.merge insertedReal noTags "alpha" ""
      (some [⟨1⟩, ⟨0⟩]) 2000 none).Runs embeddedFirst (.ok found) embeddedFirst
    ∧ ∀ r ∈ found.1, r.InRange
  := by
  have hreliable : embeddedFirst.db.Reliable := rfl
  obtain ⟨found, hrun⟩ : ∃ found, (HybridSearch.getContext SortBy.merge insertedReal noTags
      "alpha" "" (some [⟨1⟩, ⟨0⟩]) 2000 none).Runs embeddedFirst (.ok found) embeddedFirst := by
    exact ⟨_, (HybridSearch.runs_getContext_ok hreliable).mpr
      ⟨rfl, _, keywordRows_of_noWords _ "alpha" none (max 2000 20) _, rfl⟩⟩
  exact ⟨found, hrun, scores_in_range hrun⟩

end OrchestraRag
