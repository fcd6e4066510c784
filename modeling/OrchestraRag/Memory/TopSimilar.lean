import OrchestraRag.Memory.Merge

/-!
# The most similar vectors

The search for similar vectors sorts by scores of which some may be NaN, which compares with
nothing.  A NaN ties with all scores, so the order is consistent, and the search returns the
best matches, exactly if there is no NaN or the other scores are all the same
(`top_similar_iff`).
-/

namespace OrchestraRag

open Sql

/-- Scores that are NaN or elements of a linear order, compared as such. -/
class PartialFloat (F : Type) [SingleFloat F] (K : outParam Type) [LinearOrder K] where
  value : F → Option K
  partialCmp_eq : ∀ a b : F, SingleFloat.partialCmp a b
    = (value a).bind (fun x => (value b).map (fun y => compare x y))

section Search

variable {F : Type} [SingleFloat F] {K : Type} [LinearOrder K] [PartialFloat F K]

open PartialFloat

/-- The entities whose embeddings are searched, with the similarities of their vectors. -/
def MemoryTables.similarities (project : String) (queryVector : List F) (model : String)
    (tables : MemoryTables) : List (String × String × F) :=
  (tables.projectEmbeddings project model).map (fun row =>
    (row.entityType, row.entityId, cosineSimilarity queryVector (blobToVec row.vector)))

/-- The entities found are the `limit` most similar ones of `results`, by a comparator on which
a sort can rely. -/
structure TopSimilar (limit : ℕ) (results found : List (String × String × F)) : Prop where
  comparator : TotalPreorder (fun a b => byScore a.2.2 b.2.2) results
  length : found.length = min limit results.length
  descending : found.Pairwise (fun a b => ∀ x y : K, value a.2.2 = some x → value b.2.2 = some y →
    y ≤ x)
  best : ∃ dropped, (found ++ dropped).Perm results
    ∧ ∀ d ∈ dropped, ∀ r ∈ found, ∀ x y : K, value d.2.2 = some x → value r.2.2 = some y → x ≤ y

/-- No similarity is NaN, or those that are not are all the same. -/
def Comparable (results : List (String × String × F)) : Prop :=
  (∀ r ∈ results, (value r.2.2 : Option K).isSome)
    ∨ ∀ r ∈ results, ∀ r' ∈ results, ∀ x y : K, value r.2.2 = some x → value r'.2.2 = some y →
      x = y

theorem byScore_eq_byKey :
  (fun a b : String × String × F => byScore a.2.2 b.2.2)
    = byKey (fun r : String × String × F => (value r.2.2 : Option K))
  := by
  funext a b
  rw [byScore, byKey, partialCmp_eq]

variable {sorting : SortBy} {scan : Scan EmbeddingRow} {project model : String}
  {queryVector : List F} {limit : ℕ} {tables : MemoryTables}

theorem topSimilar_of_comparable
    (h : Comparable (K := K) (tables.similarities project queryVector model)) :
  TopSimilar (K := K) limit (tables.similarities project queryVector model)
    (tables.similarEntities sorting scan project queryVector model limit)
  := by
  have hscan := (scan.perm (tables.projectEmbeddings project model)).map (fun row =>
    (row.entityType, row.entityId, cosineSimilarity queryVector (blobToVec row.vector)))
  have hcomparator : TotalPreorder (fun a b : String × String × F => byScore a.2.2 b.2.2)
      (tables.similarities project queryVector model) := by
    rw [byScore_eq_byKey]
    apply totalPreorder_byKey_iff.mpr h
  have hmet := hcomparator.perm hscan
  rw [byScore_eq_byKey] at hmet
  obtain ⟨hdescending, dropped, hperm, hbest⟩ := exists_take_byKey sorting hmet limit
  rw [← byScore_eq_byKey] at hdescending hperm hbest
  constructor
  · apply hcomparator
  · rw [MemoryTables.similarEntities, List.length_take, (sorting.perm _ _).length_eq,
      hscan.length_eq]
    rfl
  · apply hdescending
  · exact ⟨dropped, hperm.trans hscan, hbest⟩

/-- A search returns the most similar vectors exactly if the similarities are comparable. -/
theorem top_similar_iff {s s' : MemoryState} (h : s.db.Reliable)
    {found : List (String × String × F)}
    (hrun : (EmbeddingStore.searchSimilar sorting scan project queryVector model limit).Runs s
      (.ok found) s') :
  TopSimilar (K := K) limit (s.db.tables.similarities project queryVector model) found
    ↔ Comparable (K := K) (s.db.tables.similarities project queryVector model)
  := by
  obtain ⟨hfound, -⟩ := (EmbeddingStore.reads_searchSimilar sorting scan h project queryVector
    model limit _ _).mp hrun
  constructor
  · rintro ⟨hcomparator, -, -, -⟩
    rw [byScore_eq_byKey (K := K)] at hcomparator
    apply totalPreorder_byKey_iff.mp hcomparator
  · intro hcomparable
    rw [Except.ok.inj hfound]
    apply topSimilar_of_comparable hcomparable

end Search

/-! ### Vectors that overflow -/

/-- An `f32` with its infinities and NaN, without rounding and without the sign of zero; what a
search does not use is left out. -/
inductive IeeeF32 where
  | finite (value : ℚ)
  | infinite (negative : Bool)
  | nan
  deriving DecidableEq

namespace IeeeF32

def add : IeeeF32 → IeeeF32 → IeeeF32
  | finite x, finite y => finite (x + y)
  | finite _, infinite b => infinite b
  | infinite b, finite _ => infinite b
  | infinite b, infinite b' => if b = b' then infinite b else nan
  | _, _ => nan

def neg : IeeeF32 → IeeeF32
  | finite x => finite (-x)
  | infinite b => infinite (!b)
  | nan => nan

def mul : IeeeF32 → IeeeF32 → IeeeF32
  | finite x, finite y => finite (x * y)
  | finite x, infinite b => if x = 0 then nan else infinite (b ^^ decide (x < 0))
  | infinite b, finite x => if x = 0 then nan else infinite (b ^^ decide (x < 0))
  | infinite b, infinite b' => infinite (b ^^ b')
  | _, _ => nan

def div : IeeeF32 → IeeeF32 → IeeeF32
  | finite x, finite y =>
      if y ≠ 0 then finite (x / y) else if x = 0 then nan else infinite (decide (x < 0))
  | finite _, infinite _ => finite 0
  | infinite b, finite y => infinite (b ^^ decide (y < 0))
  | _, _ => nan

def sqrt : IeeeF32 → IeeeF32
  | finite x => if x < 0 then nan else finite (Rat.sqrt x)
  | infinite b => if b then nan else infinite false
  | nan => nan

def ofBits (bits : BitVec 32) : IeeeF32 :=
  if bits.toNat / 2 ^ 23 % 2 ^ 8 ≠ 255 then finite (ExactF32.ofBits bits)
  else if bits.toNat % 2 ^ 23 = 0 then infinite bits.msb
  else nan

/-- The place of a number between the infinities. -/
def value : IeeeF32 → Option (WithBot (WithTop ℚ))
  | finite x => some (WithBot.some (WithTop.some x))
  | infinite b => some (if b then ⊥ else WithBot.some ⊤)
  | nan => none

instance : SingleFloat IeeeF32 where
  add := add
  sub a b := add a (neg b)
  mul := mul
  div := div
  toBits _ := 0
  ofBits := ofBits
  ofF64 _ := nan
  ofRat q := finite q
  sum := List.foldl add (finite 0)
  sqrt := sqrt
  partialCmp a b := (value a).bind (fun x => (value b).map (fun y => compare x y))
  toJson _ := .null

instance : PartialFloat IeeeF32 (WithBot (WithTop ℚ)) where
  value := value
  partialCmp_eq _ _ := rfl

end IeeeF32

/-- Notes with the embeddings `[-1]`, twice an overflow, and `[1]`. -/
def overflowed : MemoryState where
  db :=
    { tables :=
        { MemoryTables.empty with
          memories := [noteRow "m1" "alpha" "first", noteRow "m2" "alpha" "second",
            noteRow "m3" "alpha" "third", noteRow "m4" "alpha" "fourth"]
          embeddings :=
            [(MemoryTools.memoryEmbedding "e1" "m1" "alpha" [(⟨0xbf800000⟩ : F32)]).row,
              (MemoryTools.memoryEmbedding "e2" "m2" "alpha" [(⟨0x7f800000⟩ : F32)]).row,
              (MemoryTools.memoryEmbedding "e3" "m3" "alpha" [(⟨0x7f800000⟩ : F32)]).row,
              (MemoryTools.memoryEmbedding "e4" "m4" "alpha" [(⟨0x3f800000⟩ : F32)]).row] }
      faults := [] }
  issued := ["e4", "m4", "e3", "m3", "e2", "m2", "e1", "m1"]

theorem similarities_overflowed :
  overflowed.db.tables.similarities "alpha" [IeeeF32.finite 1] "default"
    = [("memory", "m1", .finite (-1)), ("memory", "m2", .nan), ("memory", "m3", .nan),
      ("memory", "m4", .finite 1)]
  := by decide +kernel

/-- The sort merges the halves of the list, and the first of either half is the first of all. -/
theorem similarEntities_overflowed :
  overflowed.db.tables.similarEntities SortBy.merge Scan.inserted "alpha" [IeeeF32.finite 1]
      "default" 1
    = [("memory", "m1", .finite (-1))]
  := by
  let le (a b : String × String × IeeeF32) : Bool := byScore a.2.2 b.2.2 != .gt
  have hsearch : overflowed.db.tables.similarEntities SortBy.merge Scan.inserted "alpha"
      [IeeeF32.finite 1] "default" 1
      = ((overflowed.db.tables.similarities "alpha" [IeeeF32.finite 1] "default").mergeSort
        le).take 1 := rfl
  have hhalves : ∀ a b c d, [a, b, c, d].mergeSort le
      = ([a, b].mergeSort le).merge ([c, d].mergeSort le) le := by
    intro a b c d
    rw [List.mergeSort, List.MergeSort.Internal.splitInTwo_fst,
      List.MergeSort.Internal.splitInTwo_snd]
    simp
  rw [hsearch, similarities_overflowed, hhalves, List.mergeSort_of_pairwise,
    List.mergeSort_of_pairwise, List.cons_merge_cons, if_pos]
  · rfl
  · decide +kernel
  · apply List.pairwise_pair.mpr
    decide +kernel
  · apply List.pairwise_pair.mpr
    decide +kernel

/-- The vectors that overflow hide the best match behind the worst. -/
theorem not_top_similar_overflowed :
  (EmbeddingStore.searchSimilar SortBy.merge Scan.inserted "alpha" [IeeeF32.finite 1] "default"
      1).Runs overflowed (.ok [("memory", "m1", .finite (-1))]) overflowed
    ∧ ¬ TopSimilar (K := WithBot (WithTop ℚ)) 1
      (overflowed.db.tables.similarities "alpha" [IeeeF32.finite 1] "default")
      [("memory", "m1", .finite (-1))]
  := by
  have hreliable : overflowed.db.Reliable := rfl
  constructor
  · rw [← similarEntities_overflowed]
    apply (EmbeddingStore.reads_searchSimilar _ _ hreliable _ _ _ _ _ _).mpr
    exact ⟨rfl, rfl⟩
  · rw [similarities_overflowed]
    rintro ⟨-, -, -, dropped, hperm, hbest⟩
    have hdropped : ("memory", "m4", IeeeF32.finite 1) ∈ dropped := by
      have hmem := hperm.mem_iff.mpr (List.mem_of_getElem? (i := 3) rfl)
      rcases List.mem_append.mp hmem with hfound | hrest
      · simp at hfound
      · apply hrest
    have hle := hbest _ hdropped _ List.mem_cons_self _ _ rfl rfl
    revert hle
    decide +kernel

/-- Notes with the embeddings `[3, 4]`, `[4, 3]` and `[0, -1]`. -/
def threeEmbedded : MemoryState where
  db :=
    { tables :=
        { MemoryTables.empty with
          memories := [noteRow "m1" "alpha" "first", noteRow "m2" "alpha" "second",
            noteRow "m3" "alpha" "third"]
          embeddings :=
            [(MemoryTools.memoryEmbedding "e1" "m1" "alpha"
                [(⟨0x40400000⟩ : F32), ⟨0x40800000⟩]).row,
              (MemoryTools.memoryEmbedding "e2" "m2" "alpha"
                [(⟨0x40800000⟩ : F32), ⟨0x40400000⟩]).row,
              (MemoryTools.memoryEmbedding "e3" "m3" "alpha"
                [(⟨0x00000000⟩ : F32), ⟨0xbf800000⟩]).row] }
      faults := [] }
  issued := ["e3", "m3", "e2", "m2", "e1", "m1"]

theorem similarities_threeEmbedded :
  threeEmbedded.db.tables.similarities "alpha" [IeeeF32.finite 1, .finite 0] "default"
    = [("memory", "m1", .finite (3 / 5)), ("memory", "m2", .finite (4 / 5)),
      ("memory", "m3", .finite 0)]
  := by decide +kernel

/-- Vectors that do not overflow are found in their order. -/
theorem top_similar_threeEmbedded :
  ∃ found, (EmbeddingStore.searchSimilar SortBy.merge Scan.inserted "alpha"
      [IeeeF32.finite 1, .finite 0] "default" 2).Runs threeEmbedded (.ok found) threeEmbedded
    ∧ TopSimilar (K := WithBot (WithTop ℚ)) 2
      (threeEmbedded.db.tables.similarities "alpha" [IeeeF32.finite 1, .finite 0] "default") found
  := by
  have hreliable : threeEmbedded.db.Reliable := rfl
  have hrun := (EmbeddingStore.reads_searchSimilar SortBy.merge Scan.inserted hreliable "alpha"
    [IeeeF32.finite 1, .finite 0] "default" 2 _ _).mpr ⟨rfl, rfl⟩
  refine ⟨_, hrun, (top_similar_iff hreliable hrun).mpr (Or.inl ?_)⟩
  rw [similarities_threeEmbedded]
  decide +kernel

end OrchestraRag
