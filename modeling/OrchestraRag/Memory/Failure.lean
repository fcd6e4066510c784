import OrchestraRag.Memory.Isolation
import OrchestraRag.Memory.Runs

/-!
# Failed memory tools

A tool that writes runs its statements one after another, without a transaction.  When one of
them fails the tool fails, and what the ones before it did stays (`left_by_failed_tools`): the
new memory without its embedding, the embeddings of a deleted memory, or the end of a session
without its summary.
-/

namespace OrchestraRag

open Sql

variable {F : Type} [SingleFloat F] {codec : TagCodec} {s s' : MemoryState}

/-! ### Ending a session -/

/-- When the statements that end a session fail, the session is as it was or it has ended. -/
theorem endSession_on_error {now sessionId e : String} {summary : String → SummaryRow}
    {db db' : Db MemoryTables}
    (h : Connection.on (do
      Connection.execute (MemoryTables.endSession now sessionId)
      let project ← Connection.select (MemoryTables.sessionProject sessionId)
      Connection.statement (MemoryTables.insertSummary (summary project))) db = (.error e, db')) :
  db'.tables = db.tables ∨ db'.tables = db.tables.endSession now sessionId
  := by
  cases hend : db.nextFault with
  | some e' =>
      rw [Connection.bind_on_error (Connection.execute_on_error hend)] at h
      rw [← (Prod.mk.inj h).2]
      apply Or.inl rfl
  | none =>
      rw [Connection.bind_on_ok (Connection.execute_on_ok hend)] at h
      apply Or.inr
      rw [Connection.bind_on] at h
      rcases hselect : (Connection.select (MemoryTables.sessionProject sessionId)).on
        (db.after (db.tables.endSession now sessionId)) with ⟨e' | project, db₁⟩
      · rw [hselect] at h
        rw [← (Prod.mk.inj h).2, Connection.tables_of_select hselect, Db.after_tables]
      · rw [hselect] at h
        rw [Connection.tables_of_statement_error h, Connection.tables_of_select hselect,
          Db.after_tables]

/-- When ending a session fails, the session is as it was or it has ended. -/
theorem SessionManager.of_runs_endSession_error {sessionId summary e : String}
    (h : (SessionManager.endSession sessionId summary).Runs s (.error e) s') :
  s'.db.tables = s.db.tables ∨ ∃ now, s'.db.tables = s.db.tables.endSession now sessionId
  := by
  obtain ⟨now, h⟩ := MemoryM.of_runs_now_bind h
  split at h
  · obtain ⟨-, ⟨he, -⟩ | ⟨-, htables⟩⟩ := MemoryM.of_runs_execute h
    · cases he
    · apply Or.inl htables
  · obtain ⟨summaryId, -, h⟩ := MemoryM.of_runs_uuid_bind h
    obtain ⟨x, hon, -, hx⟩ := MemoryM.runs_withConnection.mp h
    rcases x with e' | _
    · apply (endSession_on_error hon).imp id
      intro htables
      use now
    · cases hx

/-! ### What a failed tool leaves -/

/-- The memory that the arguments describe was inserted under a new id, and nothing else; storing
its embedding is what failed. -/
def MemoryTables.SavedAlone (codec : TagCodec) (args : Json) (issued : List String) (e : String)
    (tables tables' : MemoryTables) : Prop :=
  ∃ project category content id now, (args.index "project").asStr = some project
    ∧ (args.index "category").asStr = some category
    ∧ (args.index "content").asStr = some content
    ∧ id ∉ issued
    ∧ tables' = { tables with memories :=
        tables.memories ++ [savedRow codec id now project category content (tagsOf args)] }
    ∧ ∃ cause, e = "store embedding failed: " ++ cause

theorem MemoryTools.left_by_saveMemory {args : Json} {e : String}
    (h : (MemoryTools.saveMemory F codec args).Runs s (.error e) s') :
  s'.db.tables = s.db.tables
    ∨ s.db.tables.SavedAlone codec args s.issued e s'.db.tables
  := by
  rcases MemoryTools.of_runs_saveMemory h with ⟨-, htables⟩
    | ⟨project, category, content, id, now, tables, hproject, hcategory, hcontent, hnew, hinsert,
      ⟨-, he, -⟩ | ⟨-, embeddingId, -, -, ⟨he, -⟩ | ⟨⟨cause, he⟩, htables⟩⟩⟩
  · apply Or.inl htables
  · cases he
  · cases he
  · apply Or.inr
    use project, category, content, id, now, hproject, hcategory, hcontent, hnew
    rw [htables]
    exact ⟨MemoryTables.of_insertMemory hinsert, cause, Except.error.inj he⟩

theorem MemoryTools.left_by_deleteMemory {args : Json} {e : String}
    (h : (MemoryTools.deleteMemory args).Runs s (.error e) s') :
  s'.db.tables = s.db.tables
    ∨ ∃ id, (args.index "memory_id").asStr = some id
      ∧ s'.db.tables = s.db.tables.deleteMemory id
      ∧ ∃ cause, e = "delete embedding failed: " ++ cause
  := by
  obtain ⟨-, ⟨-, htables⟩ | ⟨id, hid, ⟨he, -⟩ | ⟨⟨cause, he⟩, htables⟩⟩⟩ :=
    MemoryTools.of_runs_deleteMemory h
  · apply Or.inl htables
  · cases he
  · exact Or.inr ⟨id, hid, htables, cause, Except.error.inj he⟩

theorem MemoryTools.left_by_endSession {args : Json} {e : String}
    (h : (MemoryTools.endSession args).Runs s (.error e) s') :
  s'.db.tables = s.db.tables
    ∨ ∃ sessionId now, (args.index "session_id").asStr = some sessionId
      ∧ s'.db.tables = s.db.tables.endSession now sessionId
  := by
  rcases MemoryTools.of_runs_required h with ⟨sessionId, hid, h⟩ | ⟨-, rfl⟩
  · rcases MemoryM.runs_bind.mp h with ⟨_, s₁, -, h⟩ | ⟨e', -, h⟩
    · obtain ⟨he, -⟩ := MemoryM.runs_pure.mp h
      cases he
    · rcases MemoryM.of_runs_named h with ⟨_, he, -⟩ | ⟨e', -, h⟩
      · cases he
      · apply (SessionManager.of_runs_endSession_error h).imp id
        rintro ⟨now, htables⟩
        exact ⟨sessionId, now, hid, htables⟩
  · apply Or.inl rfl

/-- What stays when a tool that writes fails.  `saveMemory` leaves the tables, or the new memory
without its embedding; `deleteMemory` leaves the tables, or them without the memory, whose
embeddings stay; `endSession` leaves the tables, or the session ended without a summary. -/
theorem MemoryTools.left_by_failed_tools {args : Json} {e : String} :
  ((MemoryTools.saveMemory F codec args).Runs s (.error e) s' →
    s'.db.tables = s.db.tables
      ∨ s.db.tables.SavedAlone codec args s.issued e s'.db.tables)
  ∧ ((MemoryTools.deleteMemory args).Runs s (.error e) s' →
    s'.db.tables = s.db.tables
      ∨ ∃ id, (args.index "memory_id").asStr = some id
        ∧ s'.db.tables = s.db.tables.deleteMemory id
        ∧ ∃ cause, e = "delete embedding failed: " ++ cause)
  ∧ ((MemoryTools.endSession args).Runs s (.error e) s' →
    s'.db.tables = s.db.tables
      ∨ ∃ sessionId now, (args.index "session_id").asStr = some sessionId
        ∧ s'.db.tables = s.db.tables.endSession now sessionId)
  := ⟨MemoryTools.left_by_saveMemory, MemoryTools.left_by_deleteMemory,
    MemoryTools.left_by_endSession⟩

/-! ### A note without its embedding -/

/-- A new file on which the second statement fails. -/
def secondFails : MemoryState :=
  ⟨⟨MemoryTables.empty, [none, some "disk I/O error"]⟩, []⟩

/-- What a note leaves there. -/
def noteWithoutEmbedding : MemoryState :=
  ⟨⟨{ MemoryTables.empty with memories := [noteRow "m1" "alpha" "first"] }, []⟩, ["e1", "m1"]⟩

theorem runs_saveMemory_secondFails :
  (MemoryTools.saveMemory F32 noTags (vectorArgs "alpha" "first" [⟨0x3ff0000000000000⟩])).Runs
    secondFails (.error "store embedding failed: SQLite error: disk I/O error")
    noteWithoutEmbedding
  := by
  have hnew : "e1" ∉ ["m1"] := by decide
  refine Program.exec_step.mpr ⟨"m1", _, ⟨List.not_mem_nil, rfl⟩, ?_⟩
  refine Program.exec_step.mpr ⟨"", _, rfl, ?_⟩
  refine Program.exec_step.mpr ⟨.ok (), ⟨⟨{ MemoryTables.empty with
    memories := [noteRow "m1" "alpha" "first"] }, [some "disk I/O error"]⟩, ["m1"]⟩,
    ⟨rfl, rfl⟩, ?_⟩
  refine Program.exec_step.mpr ⟨"e1", _, ⟨hnew, rfl⟩, ?_⟩
  refine Program.exec_step.mpr ⟨.error "disk I/O error", noteWithoutEmbedding, ⟨rfl, rfl⟩, ?_⟩
  apply Program.exec_ret.mpr
  exact ⟨rfl, rfl⟩

/-- The note is saved although the tool fails. -/
theorem not_all_or_nothing_saveMemory :
  ∃ s', (MemoryTools.saveMemory F32 noTags
      (vectorArgs "alpha" "first" [⟨0x3ff0000000000000⟩])).Runs
      secondFails (.error "store embedding failed: SQLite error: disk I/O error") s'
    ∧ secondFails.db.tables.memories = []
    ∧ s'.db.tables.memories = [noteRow "m1" "alpha" "first"]
    ∧ s'.db.tables ≠ secondFails.db.tables
  := by
  use noteWithoutEmbedding, runs_saveMemory_secondFails, rfl, rfl
  intro h
  cases congrArg MemoryTables.memories h

theorem left_by_saveMemory_secondFails :
  noteWithoutEmbedding.db.tables = secondFails.db.tables
    ∨ secondFails.db.tables.SavedAlone noTags
      (vectorArgs "alpha" "first" [⟨0x3ff0000000000000⟩]) secondFails.issued
      "store embedding failed: SQLite error: disk I/O error" noteWithoutEmbedding.db.tables
  := MemoryTools.left_by_failed_tools.1 runs_saveMemory_secondFails

end OrchestraRag
