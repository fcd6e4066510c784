import OrchestraRag.Memory.Merge

/-!
# Evidence and scores

A memory that the keywords and its embedding find scores the average of what it would score for
each.  The average may be less than the score of a memory that does worse on both, when only one
of the searches finds that one (`never_demoted_iff`).
-/

namespace OrchestraRag

open Sql

/-! ### Scores by position -/

section Scores

variable {K : Type} [Field K] [LinearOrder K] [IsStrictOrderedRing K] {i j n : ℕ}

/-- The score of position `i` among `n` keyword results. -/
def positionScore (i n : ℕ) : K :=
  1 - i / (2 * n)

/-- An earlier position scores at least as much. -/
theorem positionScore_anti (h : i ≤ j) :
  (positionScore j n : K) ≤ positionScore i n
  := by
  have hcast : (i : K) ≤ j := by exact_mod_cast h
  rw [positionScore, positionScore]
  gcongr

theorem positionScore_strictAnti (h : i < j) (hj : j < n) :
  (positionScore j n : K) < positionScore i n
  := by
  have hcast : (i : K) < j := by exact_mod_cast h
  have hn : (0 : K) < n := by exact_mod_cast (Nat.zero_le j).trans_lt hj
  rw [positionScore, positionScore]
  gcongr

theorem positionScore_nonneg (h : i < n) :
  (0 : K) ≤ positionScore i n
  := by
  have hcast : (i : K) ≤ n := by exact_mod_cast h.le
  have hn : (0 : K) < n := by exact_mod_cast (Nat.zero_le i).trans_lt h
  rw [positionScore, sub_nonneg, div_le_one (by linarith)]
  linarith

end Scores

/-! ### Evidence -/

section Evidence

variable {F : Type} [SingleFloat F] {K : Type} [Field K] [LinearOrder K] [ExactFloat F K]

open ContextResult ExactFloat

/-- The position of a memory among the keyword results, behind the last if it is none of them. -/
def position (rows : List MemoryRow) (id : String) : ℕ :=
  rows.findIdx (fun row => row.id = id)

/-- The similarity of a memory among the vector results, zero if it is none of them. -/
def similarityValue (entities : List (String × String × F)) (id : String) : K :=
  ((similarity entities id).map value).getD 0

/-- A memory does at least as well as another in both searches. -/
structure DoesAsWell (rows : List MemoryRow) (entities : List (String × String × F))
    (id id' : String) : Prop where
  keyword : position rows id ≤ position rows id'
  vector : (similarityValue entities id' : K) ≤ similarityValue entities id

/-- Of two entries of a map, one that does at least as well scores at least as much. -/
def NeverDemoted (rows : List MemoryRow) (entities : List (String × String × F))
    (resultMap : List (ContextResult F)) : Prop :=
  ∀ a ∈ resultMap, ∀ b ∈ resultMap, DoesAsWell rows entities a.id b.id →
    value b.score ≤ value a.score

/-- The position and the similarity of a memory that both searches find, which do at least as
well as a memory that one of them finds, together score at least twice what that one scores. -/
structure AveragesUp (rows : List MemoryRow) (entities : List (String × String × F))
    (memories : List MemoryRow) : Prop where
  keyword : ∀ i j row row' σ, rows[i]? = some row → ("memory", row.id, σ) ∈ entities →
    rows[j]? = some row' → (∀ τ, ("memory", row'.id, τ) ∉ entities) →
    i ≤ j → 0 ≤ value σ →
    2 * positionScore j rows.length ≤ positionScore i rows.length + value σ
  vector : ∀ i row row' σ τ, rows[i]? = some row → ("memory", row.id, σ) ∈ entities →
    row' ∈ memories → row'.id ∉ rows.map MemoryRow.id → ("memory", row'.id, τ) ∈ entities →
    value τ ≤ value σ →
    2 * value τ ≤ positionScore i rows.length + value σ

/-- How the searches find a memory of a score. -/
inductive Found (rows : List MemoryRow) (entities : List (String × String × F))
    (memories : List MemoryRow) (id : String) (score : K) : Prop
  | keyword (i : ℕ) (row : MemoryRow) : rows[i]? = some row → row.id = id →
      (∀ σ, ("memory", id, σ) ∉ entities) → score = positionScore i rows.length →
      Found rows entities memories id score
  | hybrid (i : ℕ) (row : MemoryRow) (σ : F) : rows[i]? = some row → row.id = id →
      ("memory", id, σ) ∈ entities → score = (positionScore i rows.length + value σ) / 2 →
      Found rows entities memories id score
  | vector (row : MemoryRow) (σ : F) : row ∈ memories → row.id = id →
      id ∉ rows.map MemoryRow.id → ("memory", id, σ) ∈ entities → score = value σ →
      Found rows entities memories id score

section Channels

variable {rows : List MemoryRow} {entities : List (String × String × F)} {id : String}

theorem position_eq (h : (rows.map MemoryRow.id).Nodup) {i : ℕ} {row : MemoryRow}
    (hrow : rows[i]? = some row) (hid : row.id = id) :
  position rows id = i
  := by
  obtain ⟨hi, rfl⟩ := List.getElem?_eq_some_iff.mp hrow
  rw [position, List.findIdx_eq hi]
  use decide_eq_true hid
  intro j hj
  apply decide_eq_false
  intro hid'
  have hi' : i < (rows.map MemoryRow.id).length := by rwa [List.length_map]
  have hj' : j < (rows.map MemoryRow.id).length := hj.trans hi'
  have hsame : (rows.map MemoryRow.id)[j] = (rows.map MemoryRow.id)[i] := by
    rw [List.getElem_map, List.getElem_map, hid, hid']
  apply hj.ne ((List.Nodup.getElem_inj_iff h).mp hsame)

theorem position_of_notMem (h : id ∉ rows.map MemoryRow.id) :
  position rows id = rows.length
  := by
  apply List.findIdx_eq_length.mpr
  intro row hrow
  apply decide_eq_false
  rintro rfl
  apply h (List.mem_map_of_mem hrow)

theorem similarityValue_eq (h : Distinct entities) {σ : F} (hσ : ("memory", id, σ) ∈ entities) :
  (similarityValue entities id : K) = value σ
  := by
  rw [similarityValue, (similarity_eq_some_iff h).mpr hσ]
  rfl

theorem similarityValue_of_notMem (h : ∀ σ, ("memory", id, σ) ∉ entities) :
  (similarityValue entities id : K) = 0
  := by
  rw [similarityValue, similarity_eq_none_iff.mpr h]
  rfl

end Channels

theorem value_average [IsStrictOrderedRing K] {i n : ℕ} (h : i < n) (σ : F) :
  value ((keywordScore i n + σ) / SingleFloat.ofRat 2)
    = (positionScore i n + value σ : K) / 2
  := by
  rw [value_div, value_add, value_keywordScore h, value_ofRat, Rat.cast_ofNat]
  rfl

section Search

variable [IsStrictOrderedRing K] {sorting : SortBy} {orders : Orders F} {codec : TagCodec}
  {project : String} {vector : Option (List F)} {limit : ℕ} {tables : MemoryTables}
  {rows : List MemoryRow} (h : tables.Unique) (hrows : (rows.map MemoryRow.id).Nodup)

include h hrows

/-- How the entries of a map are found. -/
theorem found_of_mem {r : ContextResult F}
    (hr : r ∈ tables.resultMap sorting orders codec project vector limit rows) :
  Found rows (tables.vectorEntities sorting orders project vector limit) tables.memories r.id
    (value r.score : K)
  := by
  have hexact := (MemoryTables.mem_exact_resultMap (K := K) h hrows).mp
    (List.mem_map_of_mem (f := ContextResult.exact) hr)
  generalize he : (r.exact : ContextResult K) = e at hexact
  have hid : r.id = e.id := congrArg ContextResult.id he
  have hscore : value r.score = e.score := congrArg ContextResult.score he
  rw [hid, hscore]
  cases hexact with
  | keyword hrow hnone => apply Found.keyword _ _ hrow rfl hnone rfl
  | hybrid hrow hσ => apply Found.hybrid _ _ _ hrow rfl hσ rfl
  | vector hrow hnot hσ => apply Found.vector _ _ hrow rfl hnot hσ rfl

/-- Averages that are not less keep more evidence from demoting. -/
theorem neverDemoted_of_averagesUp
    (hup : AveragesUp (K := K) rows (tables.vectorEntities sorting orders project vector limit)
      tables.memories) :
  NeverDemoted (K := K) rows (tables.vectorEntities sorting orders project vector limit)
    (tables.resultMap sorting orders codec project vector limit rows)
  := by
  have hdistinct : Distinct (tables.vectorEntities sorting orders project vector limit) :=
    MemoryTables.distinct_vectorEntities h
  have hlt : ∀ {i : ℕ} {row : MemoryRow}, rows[i]? = some row → i < rows.length :=
    fun hrow => (List.getElem?_eq_some_iff.mp hrow).1
  intro a ha b hb hwell
  obtain ⟨hkeyword, hvector⟩ := hwell
  cases found_of_mem (K := K) h hrows ha with
  | keyword i row hrow hid hnone hscore =>
      rw [position_eq hrows hrow hid] at hkeyword
      rw [similarityValue_of_notMem hnone] at hvector
      have hnonneg : (0 : K) ≤ positionScore i rows.length := positionScore_nonneg (hlt hrow)
      cases found_of_mem (K := K) h hrows hb with
      | keyword j row' hrow' hid' hnone' hscore' =>
          rw [position_eq hrows hrow' hid'] at hkeyword
          rw [hscore, hscore']
          apply positionScore_anti hkeyword
      | hybrid j row' τ hrow' hid' hτ hscore' =>
          rw [position_eq hrows hrow' hid'] at hkeyword
          rw [similarityValue_eq hdistinct hτ] at hvector
          have hle : (positionScore j rows.length : K) ≤ positionScore i rows.length :=
            positionScore_anti hkeyword
          rw [hscore, hscore']
          linarith
      | vector row' τ hrow' hid' hnot hτ hscore' =>
          rw [similarityValue_eq hdistinct hτ] at hvector
          rw [hscore, hscore']
          linarith
  | hybrid i row σ hrow hid hσ hscore =>
      rw [position_eq hrows hrow hid] at hkeyword
      rw [similarityValue_eq hdistinct hσ] at hvector
      rw [← hid] at hσ
      cases found_of_mem (K := K) h hrows hb with
      | keyword j row' hrow' hid' hnone' hscore' =>
          rw [position_eq hrows hrow' hid'] at hkeyword
          rw [similarityValue_of_notMem hnone'] at hvector
          rw [← hid'] at hnone'
          have htwice := hup.keyword i j row row' σ hrow hσ hrow' hnone' hkeyword hvector
          rw [hscore, hscore']
          linarith
      | hybrid j row' τ hrow' hid' hτ hscore' =>
          rw [position_eq hrows hrow' hid'] at hkeyword
          rw [similarityValue_eq hdistinct hτ] at hvector
          have hle : (positionScore j rows.length : K) ≤ positionScore i rows.length :=
            positionScore_anti hkeyword
          rw [hscore, hscore']
          linarith
      | vector row' τ hrow' hid' hnot hτ hscore' =>
          rw [similarityValue_eq hdistinct hτ] at hvector
          rw [← hid'] at hnot hτ
          have htwice := hup.vector i row row' σ τ hrow hσ hrow' hnot hτ hvector
          rw [hscore, hscore']
          linarith
  | vector row σ hrow hid hnot hσ hscore =>
      rw [position_of_notMem hnot] at hkeyword
      rw [similarityValue_eq hdistinct hσ] at hvector
      cases found_of_mem (K := K) h hrows hb with
      | keyword j row' hrow' hid' hnone' hscore' =>
          rw [position_eq hrows hrow' hid'] at hkeyword
          cases (hlt hrow').not_ge hkeyword
      | hybrid j row' τ hrow' hid' hτ hscore' =>
          rw [position_eq hrows hrow' hid'] at hkeyword
          cases (hlt hrow').not_ge hkeyword
      | vector row' τ hrow' hid' hnot' hτ hscore' =>
          rw [similarityValue_eq hdistinct hτ] at hvector
          rw [hscore, hscore']
          apply hvector

/-- When more evidence never demotes, the averages are not less. -/
theorem averagesUp_of_neverDemoted
    (hnever : NeverDemoted (K := K) rows
      (tables.vectorEntities sorting orders project vector limit)
      (tables.resultMap sorting orders codec project vector limit rows)) :
  AveragesUp (K := K) rows (tables.vectorEntities sorting orders project vector limit)
    tables.memories
  := by
  have hdistinct : Distinct (tables.vectorEntities sorting orders project vector limit) :=
    MemoryTables.distinct_vectorEntities h
  constructor
  · intro i j row row' σ hrow hσ hrow' hnone hij hσnonneg
    have hle := hnever _ (List.mem_of_find?_eq_some (MemoryTables.entry_hybrid h hrows hrow hσ)) _
      (List.mem_of_find?_eq_some (MemoryTables.entry_keyword h hrows hrow' hnone))
    have hi := (List.getElem?_eq_some_iff.mp hrow).1
    have hj := (List.getElem?_eq_some_iff.mp hrow').1
    have hscores : (positionScore j rows.length : K)
        ≤ (positionScore i rows.length + value σ) / 2 := by
      calc (positionScore j rows.length : K)
          = value (keywordScore j rows.length : F) := (value_keywordScore hj).symm
        _ ≤ value ((keywordScore i rows.length + σ) / SingleFloat.ofRat 2 : F) := by
          apply hle
          constructor
          · exact (position_eq hrows hrow rfl).le.trans
              (hij.trans (position_eq hrows hrow' rfl).ge)
          · exact (similarityValue_of_notMem hnone).le.trans
              (hσnonneg.trans (similarityValue_eq hdistinct hσ).ge)
        _ = (positionScore i rows.length + value σ) / 2 := value_average hi σ
    linarith
  · intro i row row' σ τ hrow hσ hrow' hnot hτ hστ
    have hle := hnever _ (List.mem_of_find?_eq_some (MemoryTables.entry_hybrid h hrows hrow hσ)) _
      (List.mem_of_find?_eq_some (MemoryTables.entry_vector h hrow' hnot hτ))
    have hi := (List.getElem?_eq_some_iff.mp hrow).1
    have hscores : value τ ≤ ((positionScore i rows.length + value σ) / 2 : K) := by
      calc value τ
          ≤ value ((keywordScore i rows.length + σ) / SingleFloat.ofRat 2 : F) := by
            apply hle
            constructor
            · exact (position_eq hrows hrow rfl).le.trans
                (hi.le.trans (position_of_notMem hnot).ge)
            · exact (similarityValue_eq hdistinct hτ).le.trans
                (hστ.trans (similarityValue_eq hdistinct hσ).ge)
        _ = (positionScore i rows.length + value σ) / 2 := value_average hi σ
    linarith

end Search

end Evidence

section Search

variable {F : Type} [SingleFloat F] {K : Type} [Field K] [LinearOrder K] [IsStrictOrderedRing K]
  [ExactFloat F K] (sorting : SortBy) (orders : Orders F) (codec : TagCodec)

/-- Among the entries that a search merges, more evidence never demotes exactly if the averages
of memories that both searches find are not less than the scores of those that do worse on both
and that one search finds. -/
theorem never_demoted_iff {s s' : MemoryState} (h : s.db.Reliable)
    (hunique : s.db.tables.Unique) {project query : String} {vector : Option (List F)}
    {budget : ℕ} {category : Option String} {found : List (ContextResult F) × ℕ}
    (hrun : (HybridSearch.getContext sorting orders codec project query vector budget category).Runs
      s (.ok found) s') :
  ∃ rows : List MemoryRow,
    let vectors := s.db.tables.vectorEntities sorting orders project vector (max budget 20)
    let resultMap := s.db.tables.resultMap sorting orders codec project vector (max budget 20) rows
    s.db.tables.keywordRows orders.memories project query category (max budget 20) = .ok rows
    ∧ found = ContextResult.ranked sorting orders budget resultMap
    ∧ (NeverDemoted (K := K) rows vectors resultMap
      ↔ AveragesUp (K := K) rows vectors s.db.tables.memories)
  := by
  obtain ⟨-, rows, hrows, hfound⟩ := (HybridSearch.runs_getContext_ok h).mp hrun
  have hnodup := MemoryTables.nodup_keywordRows hunique.memories hrows
  exact ⟨rows, hrows, hfound, averagesUp_of_neverDemoted hunique hnodup,
    neverDemoted_of_averagesUp hunique hnodup⟩

end Search

/-! ### Two notes, one with an embedding -/

theorem keywordRows_embeddedFirst :
  embeddedFirst.db.tables.keywordRows insertedExact.memories "alpha" "" none (max 2000 20)
    = .ok [noteRow "m1" "alpha" "first", noteRow "m2" "alpha" "second"]
  := by
  have hsorted := List.mergeSort_of_pairwise (List.pairwise_pair.mpr (by decide) :
    [noteRow "m1" "alpha" "first", noteRow "m2" "alpha" "second"].Pairwise
      (fun a b => MemoryTables.byUpdatedAt a b = true))
  rw [keywordRows_of_noWords]
  exact congrArg (fun rows => Except.ok (Sql.limit (asI64 (max 2000 20)) rows)) hsorted

/-- The embedding is what the vector search finds. -/
theorem vectorEntities_embeddedFirst {vector : List ExactF32} {σ : ExactF32}
    (h : cosineSimilarity vector (blobToVec (vecToBlob [(⟨0x40e00000⟩ : F32), ⟨0x41c00000⟩]))
      = σ) :
  embeddedFirst.db.tables.vectorEntities SortBy.merge insertedExact "alpha" (some vector)
      (max 2000 20)
    = [("memory", "m1", σ)]
  := by
  rw [← h]
  exact congrArg (List.take (max 2000 20)) (List.mergeSort_singleton _)

/-- The vector `[7, 24]` of the embedding itself. -/
def alongFirst : List ExactF32 :=
  [⟨7⟩, ⟨24⟩]

/-- The first note, which both searches find, scores no less than the second, for the vector is
that of its embedding. -/
theorem never_demoted_alongFirst :
  ∃ rows : List MemoryRow,
    let vectors := embeddedFirst.db.tables.vectorEntities SortBy.merge insertedExact "alpha"
      (some alongFirst) (max 2000 20)
    let resultMap := embeddedFirst.db.tables.resultMap SortBy.merge insertedExact noTags "alpha"
      (some alongFirst) (max 2000 20) rows
    (HybridSearch.getContext SortBy.merge insertedExact noTags "alpha" "" (some alongFirst) 2000
      none).Runs embeddedFirst
      (.ok (ContextResult.ranked SortBy.merge insertedExact 2000 resultMap)) embeddedFirst
    ∧ rows = [noteRow "m1" "alpha" "first", noteRow "m2" "alpha" "second"]
    ∧ vectors = [("memory", "m1", ⟨1⟩)]
    ∧ NeverDemoted (K := ℚ) rows vectors resultMap
  := by
  have hreliable : embeddedFirst.db.Reliable := rfl
  have hvectors : embeddedFirst.db.tables.vectorEntities SortBy.merge insertedExact "alpha"
      (some alongFirst) (max 2000 20) = [("memory", "m1", ⟨1⟩)] := by
    apply vectorEntities_embeddedFirst
    decide +kernel
  obtain ⟨found, hrun⟩ : ∃ found, (HybridSearch.getContext SortBy.merge insertedExact noTags
      "alpha" "" (some alongFirst) 2000 none).Runs embeddedFirst (.ok found) embeddedFirst := by
    exact ⟨_, (HybridSearch.runs_getContext_ok hreliable).mpr
      ⟨rfl, _, keywordRows_embeddedFirst, rfl⟩⟩
  obtain ⟨rows, hrows, rfl, hiff⟩ := never_demoted_iff (K := ℚ) SortBy.merge insertedExact noTags
    hreliable unique_embeddedFirst hrun
  obtain rfl := Except.ok.inj (hrows.symm.trans keywordRows_embeddedFirst)
  refine ⟨_, hrun, rfl, hvectors, hiff.mpr ?_⟩
  rw [hvectors]
  constructor
  · intro i j row row' σ hrow hσ hrow' _ hij _
    obtain ⟨-, rfl⟩ := Prod.mk.inj (Prod.mk.inj (List.mem_singleton.mp hσ)).2
    have hone : (positionScore 0 2 : ℚ) = 1 := by decide +kernel
    have hsecond : (positionScore j 2 : ℚ) ≤ positionScore 0 2 :=
      positionScore_anti (Nat.zero_le j)
    have hfirst : (positionScore j 2 : ℚ) ≤ positionScore i 2 := positionScore_anti hij
    calc 2 * (positionScore j 2 : ℚ)
        = positionScore j 2 + positionScore j 2 := by rw [two_mul]
      _ ≤ positionScore i 2 + 1 := by
        rw [← hone]
        apply add_le_add hfirst hsecond
  · intro i row row' σ τ _ _ hrow' hnot
    cases hnot (List.mem_map_of_mem hrow')

/-! ### A note demoted by its embedding -/

/-- The first note is found by the keywords before the second, and by its embedding, but the
second, which only the keywords find, scores more. -/
theorem not_never_demoted_embeddedFirst :
  ∃ resultMap : List (ContextResult ExactF32),
    (HybridSearch.getContext SortBy.merge insertedExact noTags "alpha" "" towardsFirst 2000
      none).Runs embeddedFirst
      (.ok (ContextResult.ranked SortBy.merge insertedExact 2000 resultMap)) embeddedFirst
    ∧ embeddedFirst.db.tables.keywordRows insertedExact.memories "alpha" "" none (max 2000 20)
      = .ok [noteRow "m1" "alpha" "first", noteRow "m2" "alpha" "second"]
    ∧ ¬ NeverDemoted (K := ℚ) [noteRow "m1" "alpha" "first", noteRow "m2" "alpha" "second"]
      (embeddedFirst.db.tables.vectorEntities SortBy.merge insertedExact "alpha" towardsFirst
        (max 2000 20)) resultMap
  := by
  have hreliable : embeddedFirst.db.Reliable := rfl
  refine ⟨_, (HybridSearch.runs_getContext_ok hreliable).mpr
    ⟨rfl, _, keywordRows_embeddedFirst, rfl⟩, keywordRows_embeddedFirst, ?_⟩
  intro hnever
  have hvectors : embeddedFirst.db.tables.vectorEntities SortBy.merge insertedExact "alpha"
      towardsFirst (max 2000 20) = [("memory", "m1", ⟨7 / 25⟩)] := by
    apply vectorEntities_embeddedFirst
    decide +kernel
  have hup := averagesUp_of_neverDemoted unique_embeddedFirst (by decide) hnever
  have htwice := hup.keyword 0 1 (noteRow "m1" "alpha" "first") (noteRow "m2" "alpha" "second")
    ⟨7 / 25⟩ rfl (by rw [hvectors]; exact List.mem_cons_self) rfl
    (by rw [hvectors]; simp [noteRow]) (by decide) (by decide +kernel)
  revert htwice
  decide +kernel

end OrchestraRag
