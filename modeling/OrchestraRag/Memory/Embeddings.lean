import Mathlib.Algebra.Group.Int.Defs
import Mathlib.Data.Rat.Defs
import OrchestraRag.Library.Sorting
import OrchestraRag.Memory.Tables
import OrchestraRag.Protocol.Json

/-!
# Embeddings

The calls of `EmbeddingStore`: vectors of `f32` stored as blobs, and the search for the most
similar ones.  The arithmetic of `f32` is a parameter, `SingleFloat`, of which no law is
assumed.
-/

namespace OrchestraRag

open Sql

/-- The operations of `f32`. -/
class SingleFloat (F : Type) extends Add F, Sub F, Mul F, Div F where
  toBits : F → BitVec 32
  ofBits : BitVec 32 → F
  /-- The cast `x as f32`. -/
  ofF64 : F64 → F
  /-- The value of a literal, and of the cast `n as f32`. -/
  ofRat : ℚ → F
  sum : List F → F
  sqrt : F → F
  partialCmp : F → F → Option Ordering
  toJson : F → Json

/-- The value of an `f32`; one that is not finite is `null`. -/
def float32ToJson (x : Float32) : Json :=
  if x.isFinite then .number (.float ⟨x.toFloat.toBits.toBitVec⟩) else .null

instance : SingleFloat Float32 where
  toBits x := x.toBits.toBitVec
  ofBits bits := .ofBits (.ofBitVec bits)
  ofF64 x := (Float.ofBits (.ofBitVec x.bits)).toFloat32
  ofRat q := .ofInt q.num / .ofNat q.den
  sum := List.foldl (· + ·) 0
  sqrt := Float32.sqrt
  partialCmp a b :=
    if a < b then some .lt
    else if a == b then some .eq
    else if b < a then some .gt
    else none
  toJson := float32ToJson

/-- An `f32`, by its bits. -/
structure F32 where
  bits : BitVec 32
  deriving DecidableEq

namespace F32

def toFloat32 (x : F32) : Float32 :=
  .ofBits (.ofBitVec x.bits)

def ofFloat32 (x : Float32) : F32 :=
  ⟨x.toBits.toBitVec⟩

instance : SingleFloat F32 where
  add a b := ofFloat32 (a.toFloat32 + b.toFloat32)
  sub a b := ofFloat32 (a.toFloat32 - b.toFloat32)
  mul a b := ofFloat32 (a.toFloat32 * b.toFloat32)
  div a b := ofFloat32 (a.toFloat32 / b.toFloat32)
  toBits := bits
  ofBits := F32.mk
  ofF64 x := ofFloat32 (SingleFloat.ofF64 x)
  ofRat q := ofFloat32 (SingleFloat.ofRat q)
  sum xs := ofFloat32 (SingleFloat.sum (xs.map toFloat32))
  sqrt x := ofFloat32 x.toFloat32.sqrt
  partialCmp a b := SingleFloat.partialCmp a.toFloat32 b.toFloat32
  toJson x := float32ToJson x.toFloat32

end F32

/-- A stored embedding vector. -/
structure Embedding (F : Type) where
  id : String
  entityType : String
  entityId : String
  project : String
  model : String
  vector : List F
  dimension : ℕ

section Vectors

variable {F : Type} [SingleFloat F]

open SingleFloat

/-! ### Blobs -/

def toLeBytes (bits : BitVec 32) : List UInt8 :=
  [.ofNat bits.toNat, .ofNat (bits.toNat / 2 ^ 8), .ofNat (bits.toNat / 2 ^ 16),
    .ofNat (bits.toNat / 2 ^ 24)]

def fromLeBytes (b₀ b₁ b₂ b₃ : UInt8) : BitVec 32 :=
  .ofNat 32 (b₀.toNat + 2 ^ 8 * b₁.toNat + 2 ^ 16 * b₂.toNat + 2 ^ 24 * b₃.toNat)

/-- Convert a vector to a blob, little-endian, 4 bytes per float. -/
def vecToBlob (vector : List F) : List UInt8 :=
  vector.flatMap (fun f => toLeBytes (toBits f))

/-- Convert a blob back to a vector. -/
def blobToVec : List UInt8 → List F
  | b₀ :: b₁ :: b₂ :: b₃ :: blob => ofBits (fromLeBytes b₀ b₁ b₂ b₃) :: blobToVec blob
  | _ => []

/-! ### Similarity -/

/-- `a == b` on floats. -/
def floatEq (a b : F) : Bool :=
  partialCmp a b == some .eq

/-- Cosine similarity; zero for vectors of different lengths or without magnitude. -/
def cosineSimilarity (a b : List F) : F :=
  if a.length ≠ b.length then ofRat 0
  else
    let dot := sum (List.zipWith (· * ·) a b)
    let magA := sqrt (sum (a.map (fun x => x * x)))
    let magB := sqrt (sum (b.map (fun x => x * x)))
    if floatEq magA (ofRat 0) || floatEq magB (ofRat 0) then ofRat 0
    else dot / (magA * magB)

/-- The order of results by descending score; incomparable scores count as equal. -/
def byScore (a b : F) : Ordering :=
  (partialCmp b a).getD .eq

namespace MemoryTables

variable (sorting : SortBy) (scan : Scan EmbeddingRow)

/-- The embeddings of a project, for a model. -/
def projectEmbeddings (project model : String) (tables : MemoryTables) : List EmbeddingRow :=
  tables.embeddings.filter (fun row => row.project = project ∧ row.model = model)

/-- The entities whose vectors are the most similar to a query vector, with their
similarities. -/
def similarEntities (project : String) (queryVector : List F) (model : String) (limit : ℕ)
    (tables : MemoryTables) : List (String × String × F) :=
  let results := (scan.order (tables.projectEmbeddings project model)).map (fun row =>
    (row.entityType, row.entityId, cosineSimilarity queryVector (blobToVec row.vector)))
  (sorting.sort (fun a b => byScore a.2.2 b.2.2) results).take limit

/-- The embedding of an entity, for a model. -/
def embeddingRow (entityType entityId model : String) (tables : MemoryTables) :
    Option EmbeddingRow :=
  (scan.order (tables.embeddings.filter (fun row =>
    row.entityType = entityType ∧ row.entityId = entityId ∧ row.model = model))).head?

end MemoryTables

/-- The embedding in a row, whose dimension must be an `i32`. -/
def embeddingFromRow (row : EmbeddingRow) : Except String (Embedding F) :=
  if -2 ^ 31 ≤ row.dimension ∧ row.dimension < 2 ^ 31 then
    .ok
      { id := row.id
        entityType := row.entityType
        entityId := row.entityId
        project := row.project
        model := row.model
        vector := blobToVec row.vector
        dimension := (row.dimension % 2 ^ 64).toNat }
  else .error ("Integer " ++ toString row.dimension ++ " out of range at index 6")

/-! ### Calls -/

namespace EmbeddingStore

variable (sorting : SortBy) (scan : Scan EmbeddingRow)

/-- Store an embedding, in the place of one for the same entity and model. -/
def store (embedding : Embedding F) : MemoryM Unit :=
  MemoryM.withConnection (Connection.execute (MemoryTables.replaceEmbedding
    { id := embedding.id
      entityType := embedding.entityType
      entityId := embedding.entityId
      project := embedding.project
      model := embedding.model
      vector := vecToBlob embedding.vector
      dimension := Int.bmod embedding.dimension (2 ^ 32) }))

/-- Retrieve the embedding of an entity, for a model. -/
def get (entityType entityId model : String) : MemoryM (Option (Embedding F)) :=
  MemoryM.withConnection (Connection.select fun tables =>
    match tables.embeddingRow scan entityType entityId model with
    | some row => (embeddingFromRow row).map some
    | none => .ok none)

/-- Brute-force search for the vectors most similar to a query vector. -/
def searchSimilar (project : String) (queryVector : List F) (model : String) (limit : ℕ) :
    MemoryM (List (String × String × F)) :=
  MemoryM.withConnection (Connection.query fun tables =>
    tables.similarEntities sorting scan project queryVector model limit)

/-- Delete the embeddings of an entity, for all models. -/
def delete (entityType entityId : String) : MemoryM Unit :=
  MemoryM.withConnection (Connection.execute fun tables =>
    { tables with
      embeddings := tables.embeddings.filter (fun row =>
        ¬ (row.entityType = entityType ∧ row.entityId = entityId)) })

theorem reads_searchSimilar {s : MemoryState} (h : s.db.Reliable) (project : String)
    (queryVector : List F) (model : String) (limit : ℕ) :
  MemoryM.Reads s (searchSimilar sorting scan project queryVector model limit)
    (.ok (s.db.tables.similarEntities sorting scan project queryVector model limit))
  := MemoryM.reads_query h _

end EmbeddingStore

end Vectors

end OrchestraRag
