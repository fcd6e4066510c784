import Mathlib.Data.Finset.Dedup
import Mathlib.Data.Fintype.EquivFin
import OrchestraRag.Memory.Isolation
import OrchestraRag.Memory.Runs

/-!
# Acknowledged writes

The number of rows that an `UPDATE` changed is discarded, so `update_memory` answers success for
an unknown memory, and `end_session` for an unknown session unless a summary needs its project.
In a state that the tools reach no statement fails and no UUID is issued twice; there the answers
tell whether the row existed under the conditions of `acknowledged_iff`.
-/

namespace OrchestraRag

open Sql

/-! ### Steps that always answer -/

/-- There is always a new UUID. -/
theorem MemoryOp.step_total (op : MemoryOp) (s : MemoryState) :
  ∃ x s', MemoryOp.Step op s x s'
  := by
  cases op with
  | uuid =>
      obtain ⟨id, hid⟩ := Infinite.exists_notMem_finset s.issued.toFinset
      rw [List.mem_toFinset] at hid
      use id, { s with issued := id :: s.issued }, hid
  | now => exact ⟨"", s, rfl⟩
  | connection c => exact ⟨(c.on s.db).1, ⟨(c.on s.db).2, s.issued⟩, rfl, rfl⟩

/-- Every program on the memory tables comes to its end. -/
theorem MemoryM.exists_runs {α : Type} (program : MemoryM α) (s : MemoryState) :
  ∃ r s', program.Runs s r s'
  := Program.exec_total MemoryOp.step_total _ s

/-! ### Statements that do not fail -/

namespace MemoryM

variable {s s' : MemoryState}

theorem of_runs_execute_reliable {change : MemoryTables → MemoryTables} {r : Except String Unit}
    (hs : s.db.Reliable) (h : (withConnection (Connection.execute change)).Runs s r s') :
  r = .ok () ∧ s'.issued = s.issued ∧ s'.db = s.db.after (change s.db.tables)
  := by
  obtain ⟨hissued, ⟨-, hr, hdb⟩ | ⟨e, he, -⟩⟩ := runs_execute.mp h
  · use hr, hissued
  · rw [hs.nextFault] at he
    cases he

end MemoryM

/-! ### Summaries and their ids -/

namespace MemoryState

/-- No statement fails, and the ids of the summaries were issued. -/
structure SummariesIssued (s : MemoryState) : Prop where
  reliable : s.db.Reliable
  issued : ∀ row ∈ s.db.tables.summaries, row.id ∈ s.issued

end MemoryState

/-- A step that leaves the summaries. -/
inductive LeavesSummaries : MemoryOp → Prop
  | uuid : LeavesSummaries .uuid
  | now : LeavesSummaries .now
  | connection {α : Type} {c : Connection MemoryTables α} :
      (∀ rows, Connection.Triple (·.summaries = rows) c (fun _ tables => tables.summaries = rows)
        (·.summaries = rows)) → LeavesSummaries (.connection c)

namespace LeavesSummaries

variable {s s' : MemoryState}

theorem step {op : MemoryOp} {x : MemoryAns op} (h : LeavesSummaries op) (hs : s.SummariesIssued)
    (hstep : MemoryOp.Step op s x s') :
  s'.SummariesIssued
  := by
  cases h with
  | uuid =>
      obtain ⟨-, rfl⟩ := hstep
      use hs.reliable
      intro row hrow
      apply List.mem_cons_of_mem _ (hs.issued row hrow)
  | now =>
      obtain rfl : s' = s := hstep
      apply hs
  | @connection α c hc =>
      obtain ⟨hon, hissued⟩ := hstep
      obtain ⟨hreliable, hok, herror⟩ := hc _ s.db x s'.db hs.reliable rfl hon
      have hrows : s'.db.tables.summaries = s.db.tables.summaries := by
        cases hx : (x : Except String α) with
        | ok a => apply hok a hx
        | error e => apply herror e hx
      use hreliable
      rw [hrows, hissued]
      apply hs.issued

/-! #### Programs that leave the summaries -/

variable {α : Type} {program : MemoryM α}

theorem uuid_uses :
  MemoryM.uuid.run.Uses LeavesSummaries
  := (Program.uses_call uuid).map _

theorem now_uses :
  MemoryM.now.run.Uses LeavesSummaries
  := (Program.uses_call now).map _

theorem withConnection_uses {c : Connection MemoryTables α}
    (h : ∀ rows, Connection.Triple (·.summaries = rows) c
      (fun _ tables => tables.summaries = rows) (·.summaries = rows)) :
  (MemoryM.withConnection c).run.Uses LeavesSummaries
  := by
  have hcall : (Program.call (MemoryOp.connection c) : Program MemoryOp MemoryAns _).Uses
      LeavesSummaries := Program.uses_call (connection h)
  apply hcall.map

theorem execute_uses {change : MemoryTables → MemoryTables}
    (h : ∀ tables, (change tables).summaries = tables.summaries) :
  (MemoryM.withConnection (Connection.execute change)).run.Uses LeavesSummaries
  := by
  apply withConnection_uses
  intro rows
  apply Connection.triple_execute
  intro tables hrows
  rw [h, hrows]

/-- The statement that inserts a row after it got its id. -/
theorem insert_uses {row : String → String → MemoryTables → Except String (Unit × MemoryTables)}
    (h : ∀ id now tables tables', row id now tables = .ok ((), tables') →
      tables'.summaries = tables.summaries) :
  Program.Uses LeavesSummaries (ExceptT.run (do
    let id ← MemoryM.uuid
    let now ← MemoryM.now
    MemoryM.withConnection (Connection.statement (row id now))
    pure id))
  := by
  apply Program.uses_fallible_bind uuid_uses
  intro id
  apply Program.uses_fallible_bind now_uses
  intro now
  apply Program.uses_fallible_bind
  · apply withConnection_uses
    intro rows
    apply Connection.triple_statement
    · intro tables _ tables' hrows hinsert
      rw [h id now tables tables' hinsert, hrows]
    · intro tables hrows
      apply hrows
  · intro _
    apply Program.Uses.ret

theorem saveMemory_uses (codec : TagCodec) (project category content : String)
    (tags : List String) :
  (MemoryStorage.saveMemory codec project category content tags).run.Uses LeavesSummaries
  := by
  apply insert_uses
  intro id now tables tables' hinsert
  rw [MemoryTables.of_insertMemory hinsert]

theorem updateMemory_uses (codec : TagCodec) (id content : String) (tags : List String) :
  (MemoryStorage.updateMemory codec id content tags).run.Uses LeavesSummaries
  := by
  apply Program.uses_fallible_bind now_uses
  intro now
  apply execute_uses
  intro tables
  rfl

theorem startSession_uses (project agentType model : String) :
  (SessionManager.startSession project agentType model).run.Uses LeavesSummaries
  := by
  apply insert_uses
  intro id now tables tables' hinsert
  rw [MemoryTables.insertSession] at hinsert
  split at hinsert
  · cases hinsert
  · cases hinsert
    rfl

theorem saveObservation_uses (sessionId observationType content : String)
    (context : Option String) :
  (ObservationStorage.saveObservation sessionId observationType content context).run.Uses
    LeavesSummaries
  := by
  apply Program.uses_fallible_bind uuid_uses
  intro id
  apply Program.uses_fallible_bind now_uses
  intro now
  apply Program.uses_fallible_bind
  · apply withConnection_uses
    intro rows
    apply (Connection.triple_select (fun tables hrows => hrows)).bind
    intro project
    apply Connection.triple_statement
    · intro tables _ tables' hrows hinsert
      rw [MemoryTables.insertObservation] at hinsert
      split at hinsert
      · cases hinsert
      · split at hinsert
        · cases hinsert
        · cases hinsert
          apply hrows.1
    · intro tables hrows
      apply hrows.1
  · intro _
    apply Program.Uses.ret

/-- Every tool but the one that ends sessions leaves the summaries. -/
theorem handler_uses (F : Type) [SingleFloat F] (codec : TagCodec) {tool : MemoryWrite}
    (htool : tool ≠ .endSession) (args : Json) :
  (tool.handler F codec args).run.Uses LeavesSummaries
  := by
  have hcalls := compositional_uses LeavesSummaries
  cases tool with
  | saveMemory =>
      apply hcalls.saveMemory (saveMemory_uses codec) uuid_uses
      intro embedding
      apply execute_uses
      intro tables
      rfl
  | updateMemory => apply hcalls.updateMemory (updateMemory_uses codec)
  | deleteMemory =>
      apply hcalls.deleteMemory
      · intro id
        apply execute_uses
        intro tables
        rfl
      · intro entityType entityId
        apply execute_uses
        intro tables
        rfl
  | startSession => apply hcalls.startSession startSession_uses
  | saveObservation => apply hcalls.saveObservation saveObservation_uses
  | endSession => apply absurd rfl htool

end LeavesSummaries

/-! ### The end of a session -/

/-- A memory with the id is there. -/
def MemoryState.HasMemory (s : MemoryState) (id : String) : Prop :=
  ∃ row ∈ s.db.tables.memories, row.id = id

/-- A session with the id is there. -/
def MemoryState.HasSession (s : MemoryState) (id : String) : Prop :=
  ∃ session ∈ s.db.tables.sessions, session.id = id

/-- The summary that `end_session` is called with. -/
def summaryOf (args : Json) : String :=
  (optionalStr args "summary").getD ""

/-- The row that a summary is stored as. -/
def summaryRow (id sessionId project summary now : String) : SummaryRow :=
  { id, sessionId, project, summaryType := "session_summary", content := summary, tokens := 0,
    timestamp := now }

namespace MemoryTables

variable {tables : MemoryTables} {sessionId now : String}

theorem sessionProject_endSession :
  (tables.endSession now sessionId).sessionProject sessionId = tables.sessionProject sessionId
  := by
  rw [sessionProject, sessionProject, endSession]
  have hid : ∀ session : SessionRow, (if session.id = sessionId
      then { session with endedAt := some now, updatedAt := some now } else session).id
      = session.id := by
    intro session
    split
    · rfl
    · rfl
  have hproject : ∀ session : SessionRow, (if session.id = sessionId
      then { session with endedAt := some now, updatedAt := some now } else session).project
      = session.project := by
    intro session
    split
    · rfl
    · rfl
  rw [List.find?_map]
  simp only [Function.comp_def, hid]
  cases tables.sessions.find? (fun session => session.id = sessionId) with
  | none => rfl
  | some session =>
      simp only [Option.map_some, hproject]

theorem sessionIds_endSession :
  (tables.endSession now sessionId).sessions.map SessionRow.id
    = tables.sessions.map SessionRow.id
  := by
  rw [endSession, List.map_map]
  apply List.map_congr_left
  intro session _
  rw [Function.comp_apply]
  split
  · rfl
  · rfl

/-- A session has a project. -/
theorem sessionProject_iff :
  (∃ project, tables.sessionProject sessionId = .ok project)
    ↔ ∃ session ∈ tables.sessions, session.id = sessionId
  := by
  rw [sessionProject]
  cases hfind : tables.sessions.find? (fun session => session.id = sessionId) with
  | none =>
      constructor
      · rintro ⟨project, ⟨⟩⟩
      · rintro ⟨session, hmem, hid⟩
        apply absurd (decide_eq_true hid) (List.find?_eq_none.mp hfind session hmem)
  | some session =>
      constructor
      · intro _
        have hid := List.find?_some hfind
        rw [decide_eq_true_eq] at hid
        use session, List.mem_of_find?_eq_some hfind
      · intro _
        use session.project

end MemoryTables

/-- The statements of `end_session` with a summary, on a database on which none fails. -/
theorem endSession_on {db : Db MemoryTables} (hdb : db.Reliable) (now sessionId : String)
    (summary : String → SummaryRow) :
  Connection.on (do
      Connection.execute (MemoryTables.endSession now sessionId)
      let project ← Connection.select (MemoryTables.sessionProject sessionId)
      Connection.statement (MemoryTables.insertSummary (summary project))) db
    = match db.tables.sessionProject sessionId with
      | .ok project =>
          (Connection.statement (MemoryTables.insertSummary (summary project))).on
            (db.after (db.tables.endSession now sessionId))
      | .error e => (.error e, db.after (db.tables.endSession now sessionId))
  := by
  have hended := hdb.after (db.tables.endSession now sessionId)
  rw [Connection.bind_on_ok (Connection.execute_on_ok hdb.nextFault), Connection.bind_on,
    Connection.select_on hended.nextFault, hended.after_self, Db.after_tables,
    MemoryTables.sessionProject_endSession]
  cases db.tables.sessionProject sessionId with
  | ok project => rfl
  | error e => rfl

section Runs

variable {s s' : MemoryState} {args : Json} {id : String}

/-- What a named call returns is answered. -/
theorem MemoryM.of_runs_answer {α : Type} {program : MemoryM α} {call : String} {answer : α → Json}
    {r : Except String Json}
    (h : (program.named call >>= fun a => pure (answer a)).Runs s r s') :
  (∃ a, r = .ok (answer a) ∧ program.Runs s (.ok a) s')
    ∨ ∃ e, r = .error (call ++ e) ∧ program.Runs s (.error e) s'
  := by
  rcases runs_bind.mp h with ⟨a, s₁, hnamed, h⟩ | ⟨e, rfl, hnamed⟩
  · obtain ⟨rfl, rfl⟩ := runs_pure.mp h
    rcases of_runs_named hnamed with ⟨a', ha, hruns⟩ | ⟨e, he, -⟩
    · obtain rfl := Except.ok.inj ha
      exact Or.inl ⟨a, rfl, hruns⟩
    · cases he
  · rcases of_runs_named hnamed with ⟨a, ha, -⟩ | ⟨e', he, hruns⟩
    · cases ha
    · obtain rfl := Except.error.inj he
      exact Or.inr ⟨e', rfl, hruns⟩

/-- With the text it requires, a tool goes on. -/
theorem requiredStr_bind_eq {α : Type} {field value : String} {f : String → MemoryM α}
    (h : (args.index field).asStr = some value) :
  requiredStr args field >>= f = f value
  := by
  have hpure : requiredStr args field = (pure value : MemoryM String) := by
    rw [requiredStr, h]
    rfl
  rw [hpure, pure_bind]

/-- The summary of a session that is there, under a new id, is stored. -/
theorem insertSummary_endSession {summaryId project summary now : String}
    (hs : s.SummariesIssued) (hnew : summaryId ∉ s.issued)
    (hproject : s.db.tables.sessionProject id = .ok project) :
  (s.db.tables.endSession now id).insertSummary (summaryRow summaryId id project summary now)
    = .ok ((), { s.db.tables.endSession now id with
        summaries := s.db.tables.summaries ++ [summaryRow summaryId id project summary now] })
  := by
  have hfresh : summaryId ∉ s.db.tables.summaries.map SummaryRow.id := by
    intro hmem
    obtain ⟨row, hrow, rfl⟩ := List.mem_map.mp hmem
    apply hnew (hs.issued row hrow)
  have hsession : id ∈ s.db.tables.sessions.map SessionRow.id := by
    obtain ⟨session, hmem, rfl⟩ := MemoryTables.sessionProject_iff.mp ⟨project, hproject⟩
    apply List.mem_map_of_mem hmem
  have hended : ¬ id ∉ (s.db.tables.endSession now id).sessions.map SessionRow.id := by
    rw [MemoryTables.sessionIds_endSession]
    apply not_not_intro hsession
  apply Eq.trans (if_neg hfresh)
  apply Eq.trans (if_neg hended)
  rfl

/-- What the call does where no statement fails and all ids of summaries were issued. -/
theorem SessionManager.of_runs_endSession {summary : String} {x : Except String Unit}
    (hs : s.SummariesIssued) (h : (SessionManager.endSession id summary).Runs s x s') :
  ∃ now,
    (summary = "" ∧ x = .ok () ∧ s'.issued = s.issued
      ∧ s'.db = s.db.after (s.db.tables.endSession now id))
    ∨ (summary ≠ "" ∧ ∃ summaryId, s'.issued = summaryId :: s.issued
      ∧ ((∃ project, s.db.tables.sessionProject id = .ok project ∧ x = .ok ()
          ∧ s'.db = s.db.after
            { s.db.tables.endSession now id with
              summaries := s.db.tables.summaries
                ++ [summaryRow summaryId id project summary now] })
        ∨ ((∃ e, s.db.tables.sessionProject id = .error e) ∧ (∃ e, x = .error e)
          ∧ s'.db = s.db.after (s.db.tables.endSession now id))))
  := by
  obtain ⟨now, h⟩ := MemoryM.of_runs_now_bind h
  use now
  split at h
  case isTrue hempty =>
      obtain ⟨hx, hissued, hdb⟩ := MemoryM.of_runs_execute_reliable hs.reliable h
      exact Or.inl ⟨hempty, hx, hissued, hdb⟩
  case isFalse hsummary =>
      apply Or.inr
      use hsummary
      obtain ⟨summaryId, hnew, h⟩ := MemoryM.of_runs_uuid_bind h
      obtain ⟨y, hon, hissued, rfl⟩ := MemoryM.runs_withConnection.mp h
      use summaryId, hissued
      replace hon := (endSession_on hs.reliable now id
        (fun project => summaryRow summaryId id project summary now)).symm.trans hon
      cases hproject : s.db.tables.sessionProject id with
      | error e =>
          rw [hproject] at hon
          obtain ⟨rfl, hdb⟩ := Prod.mk.inj hon
          apply Or.inr
          exact ⟨⟨e, rfl⟩, ⟨_, rfl⟩, hdb.symm⟩
      | ok project =>
          rw [hproject] at hon
          dsimp only at hon
          rw [Connection.statement_on (hs.reliable.after _).nextFault, Db.after_tables,
            insertSummary_endSession hs hnew hproject] at hon
          obtain ⟨rfl, hdb⟩ := Prod.mk.inj hon
          apply Or.inl
          refine ⟨project, rfl, rfl, hdb.symm.trans ?_⟩
          apply hs.reliable.after_after

/-- What `end_session` does where no statement fails and all ids of summaries were issued. -/
theorem MemoryTools.of_runs_endSession {r : Except String Json} (hs : s.SummariesIssued)
    (hid : (args.index "session_id").asStr = some id)
    (h : (MemoryTools.endSession args).Runs s r s') :
  ∃ now,
    (summaryOf args = "" ∧ (∃ answer, r = .ok answer) ∧ s'.issued = s.issued
      ∧ s'.db = s.db.after (s.db.tables.endSession now id))
    ∨ (summaryOf args ≠ "" ∧ ∃ summaryId, s'.issued = summaryId :: s.issued
      ∧ ((∃ project, s.db.tables.sessionProject id = .ok project ∧ (∃ answer, r = .ok answer)
          ∧ s'.db = s.db.after
            { s.db.tables.endSession now id with
              summaries := s.db.tables.summaries
                ++ [summaryRow summaryId id project (summaryOf args) now] })
        ∨ ((∃ e, s.db.tables.sessionProject id = .error e) ∧ (∃ e, r = .error e)
          ∧ s'.db = s.db.after (s.db.tables.endSession now id))))
  := by
  rw [MemoryTools.endSession, requiredStr_bind_eq hid] at h
  rcases MemoryM.of_runs_answer h with ⟨_, rfl, hcall⟩ | ⟨e, rfl, hcall⟩
  · obtain ⟨now, ⟨hempty, -, hrest⟩ | ⟨hsummary, summaryId, hissued,
      ⟨project, hproject, -, hdb⟩ | ⟨-, ⟨e, he⟩, -⟩⟩⟩ := SessionManager.of_runs_endSession hs hcall
    · exact ⟨now, Or.inl ⟨hempty, ⟨_, rfl⟩, hrest⟩⟩
    · exact ⟨now, Or.inr ⟨hsummary, summaryId, hissued, Or.inl ⟨project, hproject, ⟨_, rfl⟩, hdb⟩⟩⟩
    · cases he
  · obtain ⟨now, ⟨-, he, -⟩ | ⟨hsummary, summaryId, hissued,
      ⟨project, -, he, -⟩ | ⟨hproject, -, hdb⟩⟩⟩ := SessionManager.of_runs_endSession hs hcall
    · cases he
    · cases he
    · exact ⟨now, Or.inr ⟨hsummary, summaryId, hissued, Or.inr ⟨hproject, ⟨_, rfl⟩, hdb⟩⟩⟩

/-- What `update_memory` does where no statement fails. -/
theorem MemoryTools.of_runs_updateMemory_reliable {codec : TagCodec} {r : Except String Json}
    (hs : s.db.Reliable) (hid : (args.index "memory_id").asStr = some id)
    (h : (MemoryTools.updateMemory codec args).Runs s r s') :
  ((args.index "content").asStr = none ∧ ∃ e, r = .error e)
    ∨ ∃ content now, (args.index "content").asStr = some content ∧ (∃ answer, r = .ok answer)
      ∧ s'.db = s.db.after (s.db.tables.updateMemory codec now id content (tagsOf args))
  := by
  rw [MemoryTools.updateMemory, requiredStr_bind_eq hid] at h
  cases hcontent : (args.index "content").asStr with
  | none =>
      apply Or.inl
      use rfl
      rcases MemoryTools.of_runs_required h with ⟨content, hsome, -⟩ | ⟨herror, -⟩
      · rw [hcontent] at hsome
        cases hsome
      · apply herror
  | some content =>
      apply Or.inr
      rw [requiredStr_bind_eq hcontent] at h
      rcases MemoryM.of_runs_answer h with ⟨_, rfl, hcall⟩ | ⟨e, rfl, hcall⟩
      · obtain ⟨now, hcall⟩ := MemoryM.of_runs_now_bind hcall
        obtain ⟨-, -, hdb⟩ := MemoryM.of_runs_execute_reliable hs hcall
        exact ⟨content, now, rfl, ⟨_, rfl⟩, hdb⟩
      · obtain ⟨now, hcall⟩ := MemoryM.of_runs_now_bind hcall
        obtain ⟨he, -⟩ := MemoryM.of_runs_execute_reliable hs hcall
        cases he

end Runs

/-! ### Reached states -/

section Reached

variable {F : Type} [SingleFloat F] {codec : TagCodec} {s : MemoryState}

/-- The end of a session keeps the ids of the summaries among those issued. -/
theorem MemoryState.SummariesIssued.endSession {s' : MemoryState} {args : Json}
    {r : Except String Json} (hs : s.SummariesIssued)
    (h : (MemoryTools.endSession args).Runs s r s') :
  s'.SummariesIssued
  := by
  rcases MemoryTools.of_runs_required h with ⟨id, hid, -⟩ | ⟨-, rfl⟩
  · obtain ⟨now, ⟨-, -, hissued, hdb⟩ | ⟨-, summaryId, hissued,
      ⟨project, -, -, hdb⟩ | ⟨-, -, hdb⟩⟩⟩ := MemoryTools.of_runs_endSession hs hid h
    · constructor
      · rw [hdb]
        apply hs.reliable.after
      · rw [hdb, hissued]
        apply hs.issued
    · constructor
      · rw [hdb]
        apply hs.reliable.after
      · rw [hdb, hissued]
        intro row hrow
        rcases List.mem_append.mp hrow with hrow | hrow
        · apply List.mem_cons_of_mem _ (hs.issued row hrow)
        · obtain rfl := List.mem_singleton.mp hrow
          apply List.mem_cons_self
    · constructor
      · rw [hdb]
        apply hs.reliable.after
      · rw [hdb, hissued]
        intro row hrow
        apply List.mem_cons_of_mem _ (hs.issued row hrow)
  · apply hs

/-- In every state that is reached the ids of the summaries were issued. -/
theorem Reached.summariesIssued (h : Reached F codec s) :
  s.SummariesIssued
  := by
  induction h with
  | refl =>
      constructor
      · rfl
      · rintro row ⟨⟩
  | tail _ hstep ih =>
      obtain ⟨tool, args, r, hruns⟩ := hstep
      by_cases htool : tool = .endSession
      · obtain rfl := htool
        apply ih.endSession hruns
      · apply Program.Exec.invariant_of_uses _ hruns (LeavesSummaries.handler_uses F codec htool args)
          ih
        intro op s x s' hop hs hstep
        apply hop.step hs hstep

end Reached

/-! ### Acknowledged calls -/

/-- A call of `update_memory` succeeds exactly when the memory exists, and the memory then has the
new content. -/
structure UpdateAcknowledged (codec : TagCodec) (s : MemoryState) (id : String) (args : Json) :
    Prop where
  ok_iff : ∀ r s', (MemoryTools.updateMemory codec args).Runs s r s' →
    ((∃ answer, r = .ok answer) ↔ s.HasMemory id)
  updated : ∀ answer s', (MemoryTools.updateMemory codec args).Runs s (.ok answer) s' →
    s'.HasMemory id ∧ ∀ row ∈ s'.db.tables.memories, row.id = id →
      (args.index "content").asStr = some row.content

/-- A call of `end_session` succeeds exactly when the session exists; the session has then ended,
and there is one more summary, of that session, exactly when one was given. -/
structure EndAcknowledged (s : MemoryState) (id : String) (args : Json) : Prop where
  ok_iff : ∀ r s', (MemoryTools.endSession args).Runs s r s' →
    ((∃ answer, r = .ok answer) ↔ s.HasSession id)
  ended : ∀ answer s', (MemoryTools.endSession args).Runs s (.ok answer) s' →
    s'.HasSession id ∧ ∀ session ∈ s'.db.tables.sessions, session.id = id →
      session.endedAt ≠ none
  summaries : ∀ answer s', (MemoryTools.endSession args).Runs s (.ok answer) s' →
    (summaryOf args = "" → s'.db.tables.summaries = s.db.tables.summaries)
      ∧ (summaryOf args ≠ "" → ∃ row, s'.db.tables.summaries = s.db.tables.summaries ++ [row]
        ∧ row.sessionId = id ∧ row.content = summaryOf args)

/-- Whether `end_session` fails for an id does not depend on the other arguments. -/
def SummaryIndifferent (s : MemoryState) (id : String) : Prop :=
  ∀ args args', (args.index "session_id").asStr = some id →
    (args'.index "session_id").asStr = some id → ∀ r s₁ r' s₂,
    (MemoryTools.endSession args).Runs s r s₁ → (MemoryTools.endSession args').Runs s r' s₂ →
    ((∃ answer, r = .ok answer) ↔ ∃ answer, r' = .ok answer)

section Acknowledged

variable {codec : TagCodec} {s : MemoryState} {id : String} {args : Json}

/-- The tool fails exactly without a content. -/
theorem updateMemory_ok_iff {r : Except String Json} {s' : MemoryState} (hs : s.db.Reliable)
    (hid : (args.index "memory_id").asStr = some id)
    (h : (MemoryTools.updateMemory codec args).Runs s r s') :
  (∃ answer, r = .ok answer) ↔ ∃ content, (args.index "content").asStr = some content
  := by
  rcases MemoryTools.of_runs_updateMemory_reliable hs hid h with
    ⟨hnone, e, rfl⟩ | ⟨content, now, hcontent, hok, -⟩
  · rw [hnone]
    constructor
    · rintro ⟨answer, ⟨⟩⟩
    · rintro ⟨content, ⟨⟩⟩
  · apply iff_of_true hok ⟨content, hcontent⟩

/-- A memory that is there and is updated has the new content. -/
theorem updated_updateMemory {answer : Json} {s' : MemoryState} (hs : s.db.Reliable)
    (hid : (args.index "memory_id").asStr = some id) (hmemory : s.HasMemory id)
    (h : (MemoryTools.updateMemory codec args).Runs s (.ok answer) s') :
  s'.HasMemory id ∧ ∀ row ∈ s'.db.tables.memories, row.id = id →
    (args.index "content").asStr = some row.content
  := by
  rcases MemoryTools.of_runs_updateMemory_reliable hs hid h with
    ⟨-, e, he⟩ | ⟨content, now, hcontent, -, hdb⟩
  · cases he
  · rw [MemoryState.HasMemory, hdb, hcontent]
    constructor
    · obtain ⟨row, hrow, hrowid⟩ := hmemory
      refine ⟨_, List.mem_map_of_mem hrow, ?_⟩
      rw [if_pos hrowid]
      apply hrowid
    · intro row' hrow' hid'
      obtain ⟨row, hrow, rfl⟩ := List.mem_map.mp hrow'
      by_cases hrowid : row.id = id
      · rw [if_pos hrowid]
      · rw [if_neg hrowid] at hid'
        apply absurd hid' hrowid

theorem updateAcknowledged_iff (hs : s.db.Reliable)
    (hid : (args.index "memory_id").asStr = some id) :
  UpdateAcknowledged codec s id args
    ↔ (s.HasMemory id ↔ ∃ content, (args.index "content").asStr = some content)
  := by
  constructor
  · intro h
    obtain ⟨r, s', hruns⟩ := MemoryM.exists_runs (MemoryTools.updateMemory codec args) s
    rw [← h.ok_iff r s' hruns]
    apply updateMemory_ok_iff hs hid hruns
  · intro hiff
    constructor
    · intro r s' hruns
      rw [hiff]
      apply updateMemory_ok_iff hs hid hruns
    · intro answer s' hruns
      have hmemory := hiff.mpr ((updateMemory_ok_iff hs hid hruns).mp ⟨answer, rfl⟩)
      apply updated_updateMemory hs hid hmemory hruns

/-- An ended session has ended. -/
theorem of_mem_endSession {tables : MemoryTables} {now : String} {session : SessionRow}
    (h : session ∈ (tables.endSession now id).sessions) (hid : session.id = id) :
  session.endedAt ≠ none
  := by
  obtain ⟨before, -, rfl⟩ := List.mem_map.mp h
  by_cases hbefore : before.id = id
  · rw [if_pos hbefore]
    apply Option.some_ne_none
  · rw [if_neg hbefore] at hid
    apply absurd hid hbefore

theorem hasSession_endSession {tables : MemoryTables} {now : String} :
  (∃ session ∈ (tables.endSession now id).sessions, session.id = id)
    ↔ ∃ session ∈ tables.sessions, session.id = id
  := by
  have hids : id ∈ (tables.endSession now id).sessions.map SessionRow.id
      ↔ id ∈ tables.sessions.map SessionRow.id := by
    rw [MemoryTables.sessionIds_endSession]
  rw [List.mem_map, List.mem_map] at hids
  apply hids

/-- The tool fails exactly for an unknown session with a summary. -/
theorem endSession_ok_iff {r : Except String Json} {s' : MemoryState} (hs : s.SummariesIssued)
    (hid : (args.index "session_id").asStr = some id)
    (h : (MemoryTools.endSession args).Runs s r s') :
  (∃ answer, r = .ok answer) ↔ s.HasSession id ∨ summaryOf args = ""
  := by
  obtain ⟨now, ⟨hempty, hok, -⟩ | ⟨hsummary, summaryId, -,
    ⟨project, hproject, hok, -⟩ | ⟨⟨e, hproject⟩, ⟨e', rfl⟩, -⟩⟩⟩ :=
    MemoryTools.of_runs_endSession hs hid h
  · apply iff_of_true hok (Or.inr hempty)
  · apply iff_of_true hok (Or.inl (MemoryTables.sessionProject_iff.mp ⟨project, hproject⟩))
  · apply iff_of_false
    · rintro ⟨answer, ⟨⟩⟩
    · rintro (hsession | hempty)
      · obtain ⟨project, hok⟩ := MemoryTables.sessionProject_iff.mpr hsession
        rw [hok] at hproject
        cases hproject
      · apply hsummary hempty

/-- A session that is there and whose end is acknowledged has ended. -/
theorem ended_endSession {answer : Json} {s' : MemoryState} (hs : s.SummariesIssued)
    (hid : (args.index "session_id").asStr = some id) (hsession : s.HasSession id)
    (h : (MemoryTools.endSession args).Runs s (.ok answer) s') :
  s'.HasSession id ∧ ∀ session ∈ s'.db.tables.sessions, session.id = id → session.endedAt ≠ none
  := by
  have htables : ∃ now, s'.db.tables.sessions = (s.db.tables.endSession now id).sessions := by
    obtain ⟨now, ⟨-, -, -, hdb⟩ | ⟨-, summaryId, -,
      ⟨project, -, -, hdb⟩ | ⟨-, ⟨e, he⟩, -⟩⟩⟩ := MemoryTools.of_runs_endSession hs hid h
    · exact ⟨now, by rw [hdb]; rfl⟩
    · exact ⟨now, by rw [hdb]; rfl⟩
    · cases he
  obtain ⟨now, htables⟩ := htables
  rw [MemoryState.HasSession, htables]
  constructor
  · apply hasSession_endSession.mpr hsession
  · intro session hmem hsessionId
    apply of_mem_endSession hmem hsessionId

/-- A summary is stored exactly when one was given. -/
theorem summaries_endSession {answer : Json} {s' : MemoryState} (hs : s.SummariesIssued)
    (hid : (args.index "session_id").asStr = some id)
    (h : (MemoryTools.endSession args).Runs s (.ok answer) s') :
  (summaryOf args = "" → s'.db.tables.summaries = s.db.tables.summaries)
    ∧ (summaryOf args ≠ "" → ∃ row, s'.db.tables.summaries = s.db.tables.summaries ++ [row]
      ∧ row.sessionId = id ∧ row.content = summaryOf args)
  := by
  obtain ⟨now, ⟨hempty, -, -, hdb⟩ | ⟨hsummary, summaryId, -,
    ⟨project, -, -, hdb⟩ | ⟨-, ⟨e, he⟩, -⟩⟩⟩ := MemoryTools.of_runs_endSession hs hid h
  · rw [hdb]
    constructor
    · intro _
      rfl
    · intro hsummary
      apply absurd hempty hsummary
  · rw [hdb]
    constructor
    · intro hempty
      apply absurd hempty hsummary
    · intro _
      exact ⟨_, rfl, rfl, rfl⟩
  · cases he

theorem endAcknowledged_iff (hs : s.SummariesIssued)
    (hid : (args.index "session_id").asStr = some id) :
  EndAcknowledged s id args ↔ s.HasSession id ∨ summaryOf args ≠ ""
  := by
  constructor
  · intro h
    obtain ⟨r, s', hruns⟩ := MemoryM.exists_runs (MemoryTools.endSession args) s
    by_cases hempty : summaryOf args = ""
    · apply Or.inl
      rw [← h.ok_iff r s' hruns, endSession_ok_iff hs hid hruns]
      apply Or.inr hempty
    · apply Or.inr hempty
  · intro hcondition
    have hok : ∀ r s', (MemoryTools.endSession args).Runs s r s' →
        ((∃ answer, r = .ok answer) ↔ s.HasSession id) := by
      intro r s' hruns
      rw [endSession_ok_iff hs hid hruns]
      constructor
      · rintro (hsession | hempty)
        · apply hsession
        · apply hcondition.resolve_right (not_not_intro hempty)
      · apply Or.inl
    constructor
    · apply hok
    · intro answer s' hruns
      apply ended_endSession hs hid ((hok _ s' hruns).mp ⟨answer, rfl⟩) hruns
    · intro answer s' hruns
      apply summaries_endSession hs hid hruns

/-- An `end_session` call with the id and a summary. -/
def endArgs (id summary : String) : Json :=
  .object [("session_id", .string id), ("summary", .string summary)]

theorem summaryIndifferent_iff (hs : s.SummariesIssued) :
  SummaryIndifferent s id ↔ s.HasSession id
  := by
  constructor
  · intro h
    obtain ⟨r, s₁, hruns⟩ := MemoryM.exists_runs (MemoryTools.endSession (endArgs id "")) s
    obtain ⟨r', s₂, hruns'⟩ := MemoryM.exists_runs (MemoryTools.endSession (endArgs id "done")) s
    have hiff := h (endArgs id "") (endArgs id "done") rfl rfl r s₁ r' s₂ hruns hruns'
    rw [endSession_ok_iff hs rfl hruns, endSession_ok_iff hs rfl hruns'] at hiff
    have hdone : summaryOf (endArgs id "done") = "done" := rfl
    apply (hiff.mp (Or.inr rfl)).resolve_right
    rw [hdone]
    decide
  · intro hsession args args' hid hid' r s₁ r' s₂ hruns hruns'
    rw [endSession_ok_iff hs hid hruns, endSession_ok_iff hs hid' hruns']
    apply iff_of_true (Or.inl hsession) (Or.inl hsession)

end Acknowledged

/-- In every state that is reached: `update_memory` acknowledges as it should exactly when the
memory exists just if a content is given, `end_session` exactly when the session exists or a
summary is given, and whether an id is an error depends on the summary exactly for unknown
sessions. -/
theorem acknowledged_iff {F : Type} [SingleFloat F] {codec : TagCodec} {s : MemoryState}
    (h : Reached F codec s) (id : String) (args : Json) :
  ((args.index "memory_id").asStr = some id →
    (UpdateAcknowledged codec s id args
      ↔ (s.HasMemory id ↔ ∃ content, (args.index "content").asStr = some content)))
  ∧ ((args.index "session_id").asStr = some id →
    (EndAcknowledged s id args ↔ s.HasSession id ∨ summaryOf args ≠ ""))
  ∧ (SummaryIndifferent s id ↔ s.HasSession id)
  := by
  refine ⟨?_, ?_, ?_⟩
  · apply updateAcknowledged_iff h.summariesIssued.reliable
  · apply endAcknowledged_iff h.summariesIssued
  · apply summaryIndifferent_iff h.summariesIssued

/-! ### A session that was started -/

/-- A new file after a session was started. -/
def startedSession : MemoryState where
  db :=
    { tables :=
        { MemoryTables.empty with
          sessions := [⟨"s1", "alpha", "", none, "claude", "opus", 0, 0, 0, none⟩] }
      faults := [] }
  issued := ["s1"]

theorem reached_startedSession :
  Reached F32 noTags startedSession
  := by
  apply Relation.ReflTransGen.single
  use .startSession, .object [("project", .string "alpha"), ("agent_type", .string "claude"),
    ("model", .string "opus")], .ok (.object [("session_id", .string "s1")])
  refine Program.exec_step.mpr ⟨"s1", _, ⟨List.not_mem_nil, rfl⟩, ?_⟩
  refine Program.exec_step.mpr ⟨"", _, rfl, ?_⟩
  refine Program.exec_step.mpr ⟨.ok (), startedSession, ⟨rfl, rfl⟩, ?_⟩
  apply Program.exec_ret.mpr
  exact ⟨rfl, rfl⟩

/-- Its end is acknowledged as it should, with a summary and without. -/
theorem acknowledged_startedSession :
  EndAcknowledged startedSession "s1" (endArgs "s1" "done")
    ∧ EndAcknowledged startedSession "s1" (endArgs "s1" "")
    ∧ SummaryIndifferent startedSession "s1"
  := by
  have hsession : startedSession.HasSession "s1" := ⟨_, List.mem_cons_self, rfl⟩
  have hended (summary : String) :=
    (acknowledged_iff reached_startedSession "s1" (endArgs "s1" summary)).2
  refine ⟨?_, ?_, ?_⟩
  · apply ((hended "done").1 rfl).mpr (Or.inl hsession)
  · apply ((hended "").1 rfl).mpr (Or.inl hsession)
  · apply (hended "").2.mpr hsession

/-- On a new file an update of any memory is acknowledged, and the end of any session without a
summary. -/
theorem not_acknowledged_new :
  ¬ UpdateAcknowledged noTags MemoryState.new "m1"
      (.object [("memory_id", .string "m1"), ("content", .string "text")])
    ∧ ¬ EndAcknowledged MemoryState.new "s1" (endArgs "s1" "")
    ∧ ¬ SummaryIndifferent MemoryState.new "s1"
  := by
  have hnew : MemoryState.new.SummariesIssued := by
    constructor
    · rfl
    · rintro row ⟨⟩
  have hsession : ¬ MemoryState.new.HasSession "s1" := by
    rintro ⟨session, ⟨⟩, -⟩
  refine ⟨?_, ?_, ?_⟩
  · rw [updateAcknowledged_iff hnew.reliable rfl]
    intro hiff
    obtain ⟨row, ⟨⟩, -⟩ := hiff.mpr ⟨"text", rfl⟩
  · rw [endAcknowledged_iff hnew rfl]
    rintro (hmem | hsummary)
    · apply hsession hmem
    · apply hsummary rfl
  · rw [summaryIndifferent_iff hnew]
    apply hsession

end OrchestraRag
