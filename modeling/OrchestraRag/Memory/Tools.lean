import Mathlib.Algebra.GroupWithZero.Nat
import OrchestraRag.Memory.Search
import OrchestraRag.Memory.Sessions
import OrchestraRag.Protocol.Handler

/-!
# The memory tools

The eleven tools on the memory tables: six write (`MemoryWrite`), four read what belongs to a
project (`ProjectRead`), and `getMemory` reads a memory by its id.
-/

namespace OrchestraRag

open Sql

/-! ### Values -/

def Memory.toJson (mem : Memory) : Json :=
  .object (SortedMap.collect
    [("id", .string mem.id),
      ("project", .string mem.project),
      ("category", .string mem.category),
      ("content", .string mem.content),
      ("tags", .array (mem.tags.map Json.string)),
      ("created_at", .string mem.createdAt),
      ("updated_at", .string mem.updatedAt)])

/-- A memory in a project summary. -/
def Memory.toSummaryJson (mem : Memory) : Json :=
  .object (SortedMap.collect
    [("id", .string mem.id),
      ("category", .string mem.category),
      ("content", .string mem.content),
      ("created_at", .string mem.createdAt)])

def ContextResult.toJson {F : Type} [SingleFloat F] (result : ContextResult F) : Json :=
  .object (SortedMap.collect
    [("id", .string result.id),
      ("content", .string result.content),
      ("category", .string result.category),
      ("score", SingleFloat.toJson result.score),
      ("source", .string result.source)])

def optionToJson : Option String → Json
  | some text => .string text
  | none => .null

def ObservationRow.toJson (row : ObservationRow) : Json :=
  .object (SortedMap.collect
    [("id", .string row.id),
      ("type", .string row.observationType),
      ("content", .string row.content),
      ("context", optionToJson row.context),
      ("timestamp", .string row.timestamp)])

/-- The value of a count. -/
def countToJson (n : ℕ) : Json :=
  .number (.posInt (.ofNat n))

def success : Json :=
  .object [("success", .bool true)]

theorem Json.index_collect (key : String) (entries : List (String × Json)) :
  (Json.object (SortedMap.collect entries)).index key = (entries.reverse.lookup key).getD .null
  := by
  rw [Json.index, Json.get_collect]

/-! ### Arguments -/

/-- A text that a tool cannot do without. -/
def requiredStr (args : Json) (field : String) : MemoryM String :=
  ExceptT.mk (pure (required field (args.index field).asStr))

def optionalStr (args : Json) (field : String) : Option String :=
  (args.get field).bind Json.asStr

/-- A number, with its default. -/
def optionalU64 (args : Json) (field : String) (default : UInt64) : UInt64 :=
  ((args.get field).bind Json.asU64).getD default

/-- The tags; what is not a text is left out. -/
def tagsOf (args : Json) : List String :=
  (((args.get "tags").bind Json.asArray).getD []).filterMap Json.asStr

/-- The vector, if there is one; what is not a number is left out. -/
def vectorOf (F : Type) [SingleFloat F] (args : Json) : Option (List F) :=
  ((args.get "vector").bind Json.asArray).map (fun items =>
    items.filterMap (fun item => item.asF64.map SingleFloat.ofF64))

theorem reads_requiredStr {s : MemoryState} (args : Json) (field : String) :
  MemoryM.Reads s (requiredStr args field) (required field (args.index field).asStr)
  := fun _ _ => Program.exec_ret

/-- The argument a tool finds. -/
theorem readsSame_requiredStr {s s' : MemoryState} (args : Json) (field : String) :
  MemoryM.ReadsSame s s' (requiredStr args field)
    (fun value => (args.index field).asStr = some value)
  := by
  apply MemoryM.readsSame_of_reads (reads_requiredStr args field) (reads_requiredStr args field)
  intro value hvalue
  cases hfield : (args.index field).asStr with
  | none =>
      rw [hfield] at hvalue
      cases hvalue
  | some text =>
      rw [hfield] at hvalue
      rw [Except.ok.inj hvalue]

/-- An argument that is given is found. -/
theorem readsSame_of_given {s s' : MemoryState} {args : Json} {field value : String}
    (h : (args.index field).asStr = some value) :
  MemoryM.ReadsSame s s' (requiredStr args field) (fun found => value = found)
  := by
  obtain ⟨r, hs, hs', hfound⟩ := @readsSame_requiredStr s s' args field
  use r, hs, hs'
  intro found hr
  apply Option.some.inj (h.symm.trans (hfound found hr))

/-! ### Tools -/

namespace MemoryTools

variable {F : Type} [SingleFloat F]

/-! #### Writing -/

/-- Store the embedding of a memory, if a vector came with it. -/
def storeEmbedding (memoryId project : String) (vector : List F) : MemoryM Unit :=
  if vector.isEmpty then pure ()
  else do
    let id ← MemoryM.uuid
    let embedding : Embedding F :=
      { id, entityType := "memory", entityId := memoryId, project, model := "default", vector,
        dimension := vector.length }
    (EmbeddingStore.store embedding).named "store embedding failed: "

variable (F) in
def saveMemory (codec : TagCodec) (args : Json) : MemoryM Json := do
  let project ← requiredStr args "project"
  let category ← requiredStr args "category"
  let content ← requiredStr args "content"
  let memoryId ← (MemoryStorage.saveMemory codec project category content (tagsOf args)).named
    "save_memory failed: "
  match vectorOf F args with
  | some vector => storeEmbedding memoryId project vector
  | none => pure ()
  pure (.object [("memory_id", .string memoryId)])

def updateMemory (codec : TagCodec) (args : Json) : MemoryM Json := do
  let memoryId ← requiredStr args "memory_id"
  let content ← requiredStr args "content"
  (MemoryStorage.updateMemory codec memoryId content (tagsOf args)).named "update_memory failed: "
  pure success

def deleteMemory (args : Json) : MemoryM Json := do
  let memoryId ← requiredStr args "memory_id"
  (MemoryStorage.deleteMemory memoryId).named "delete_memory failed: "
  (EmbeddingStore.delete "memory" memoryId).named "delete embedding failed: "
  pure success

def startSession (args : Json) : MemoryM Json := do
  let project ← requiredStr args "project"
  let agentType ← requiredStr args "agent_type"
  let model ← requiredStr args "model"
  let sessionId ← (SessionManager.startSession project agentType model).named
    "start_session failed: "
  pure (.object [("session_id", .string sessionId)])

def saveObservation (args : Json) : MemoryM Json := do
  let sessionId ← requiredStr args "session_id"
  let observationType ← requiredStr args "observation_type"
  let content ← requiredStr args "content"
  let id ← (ObservationStorage.saveObservation sessionId observationType content
    (optionalStr args "context")).named "save_observation failed: "
  pure (.object [("observation_id", .string id)])

def endSession (args : Json) : MemoryM Json := do
  let sessionId ← requiredStr args "session_id"
  let summary := (optionalStr args "summary").getD ""
  (SessionManager.endSession sessionId summary).named "end_session failed: "
  pure success

/-! #### Reading -/

def getMemory (scan : Scan MemoryRow) (codec : TagCodec) (args : Json) : MemoryM Json := do
  let memoryId ← requiredStr args "memory_id"
  match ← (MemoryStorage.getMemory scan codec memoryId).named "get_memory failed: " with
  | some mem => pure (.object [("memory", mem.toJson)])
  | none => pure (.object [("memory", .null)])

variable (sorting : SortBy) (orders : Orders F) (codec : TagCodec)

def listMemories (args : Json) : MemoryM Json := do
  let project ← requiredStr args "project"
  let limit := (optionalU64 args "limit" 50).toNat
  let offset := (optionalU64 args "offset" 0).toNat
  let memories ← (MemoryStorage.listMemoriesPaginated orders.memories codec project
    (optionalStr args "category") limit offset).named "list_memories failed: "
  let memoriesJson := memories.map Memory.toJson
  pure (.object (SortedMap.collect
    [("memories", .array memoriesJson), ("count", countToJson memoriesJson.length)]))

/-- The budget is made from the limit by wrapping arithmetic. -/
def searchMemory (args : Json) : MemoryM Json := do
  let project ← requiredStr args "project"
  let query ← requiredStr args "query"
  let limit := optionalU64 args "limit" 10
  let (results, _) ← (HybridSearch.getContext sorting orders codec project query (vectorOf F args)
    (limit * 200).toNat (optionalStr args "category")).named "search_memory failed: "
  pure (.object [("results", .array ((results.take limit.toNat).map ContextResult.toJson))])

def getContext (args : Json) : MemoryM Json := do
  let project ← requiredStr args "project"
  let query ← requiredStr args "query"
  let budget := (optionalU64 args "budget" 2000).toNat
  let (results, tokenEstimate) ← (HybridSearch.getContext sorting orders codec project query
    (vectorOf F args) budget none).named "get_context failed: "
  pure (.object (SortedMap.collect
    [("context", .array (results.map ContextResult.toJson)),
      ("token_estimate", countToJson tokenEstimate)]))

def getProjectSummary (args : Json) : MemoryM Json := do
  let project ← requiredStr args "project"
  let categories ← (MemoryStorage.countByCategory project).named "count_by_category: "
  let recent ← (MemoryStorage.recentMemories orders.memories codec project 5).named
    "recent_memories: "
  let (sessionCount, lastSession) ← (SessionManager.sessionStats project).named "session_stats: "
  let observations ← (ObservationStorage.listByProjectType orders.observations project none
    10).named "list_observations: "
  pure (.object (SortedMap.collect
    [("memory_stats", .object (SortedMap.collect
        [("total", countToJson (categories.map Prod.snd).sum),
          ("categories", .object (SortedMap.collect
            (categories.map (fun (category, n) => (category, countToJson n)))))])),
      ("session_stats", .object (SortedMap.collect
        [("total", countToJson sessionCount), ("last_session", optionToJson lastSession)])),
      ("recent_memories", .array (recent.map Memory.toSummaryJson)),
      ("recent_observations", .array (observations.map ObservationRow.toJson))]))

end MemoryTools

/-! ### Kinds of tools -/

/-- The tools that write. -/
inductive MemoryWrite where
  | saveMemory
  | updateMemory
  | deleteMemory
  | startSession
  | saveObservation
  | endSession
  deriving DecidableEq

def MemoryWrite.handler (F : Type) [SingleFloat F] (codec : TagCodec) :
    MemoryWrite → Json → MemoryM Json
  | .saveMemory => MemoryTools.saveMemory F codec
  | .updateMemory => MemoryTools.updateMemory codec
  | .deleteMemory => MemoryTools.deleteMemory
  | .startSession => MemoryTools.startSession
  | .saveObservation => MemoryTools.saveObservation
  | .endSession => MemoryTools.endSession

/-- The tools that read what belongs to a project. -/
inductive ProjectRead where
  | listMemories
  | searchMemory
  | getContext
  | getProjectSummary
  deriving DecidableEq

def ProjectRead.handler {F : Type} [SingleFloat F] (sorting : SortBy) (orders : Orders F)
    (codec : TagCodec) : ProjectRead → Json → MemoryM Json
  | .listMemories => MemoryTools.listMemories orders codec
  | .searchMemory => MemoryTools.searchMemory sorting orders codec
  | .getContext => MemoryTools.getContext sorting orders codec
  | .getProjectSummary => MemoryTools.getProjectSummary orders codec

end OrchestraRag
