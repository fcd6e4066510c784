import Mathlib.Data.Set.Image
import OrchestraRag.Memory.Isolation
import OrchestraRag.Memory.Ownership
import OrchestraRag.Memory.Runs
import OrchestraRag.Memory.Timestamps

/-!
# Rows in the order of time

The times in the tables are texts that `to_rfc3339` printed, whichever calls ran and however they
interleaved (`MemoryTables.Stamped`).  As the texts are in the order of the instants, the rows that
the queries return are in the order of time (`chronological_of_run`).
-/

namespace OrchestraRag

open Calendar Sql

/-! ### The tables -/

/-- The texts that `to_rfc3339` prints. -/
abbrev timestamps : Set String :=
  Set.range toRfc3339

namespace MemoryTables

/-- The times in the tables were printed by `to_rfc3339`. -/
structure Stamped (tables : MemoryTables) : Prop where
  createdAt : ∀ row ∈ tables.memories, row.createdAt ∈ timestamps
  updatedAt : ∀ row ∈ tables.memories, row.updatedAt ∈ timestamps
  startedAt : ∀ row ∈ tables.sessions, row.startedAt ∈ timestamps
  timestamp : ∀ row ∈ tables.observations, row.timestamp ∈ timestamps

namespace Stamped

theorem empty :
  MemoryTables.empty.Stamped
  := by
  constructor
  all_goals rintro row ⟨⟩

variable {tables tables' : MemoryTables} (h : tables.Stamped)

include h

theorem insertMemory {row : MemoryRow} (hcreated : row.createdAt ∈ timestamps)
    (hupdated : row.updatedAt ∈ timestamps)
    (hinsert : tables.insertMemory row = .ok ((), tables')) :
  tables'.Stamped
  := by
  rw [of_insertMemory hinsert]
  constructor
  · rw [List.forall_mem_append, List.forall_mem_singleton]
    exact ⟨h.createdAt, hcreated⟩
  · rw [List.forall_mem_append, List.forall_mem_singleton]
    exact ⟨h.updatedAt, hupdated⟩
  · apply h.startedAt
  · apply h.timestamp

theorem insertSession {row : SessionRow} (hstarted : row.startedAt ∈ timestamps)
    (hinsert : tables.insertSession row = .ok ((), tables')) :
  tables'.Stamped
  := by
  rw [MemoryTables.insertSession] at hinsert
  split at hinsert
  · cases hinsert
  · cases hinsert
    constructor
    · apply h.createdAt
    · apply h.updatedAt
    · rw [List.forall_mem_append, List.forall_mem_singleton]
      exact ⟨h.startedAt, hstarted⟩
    · apply h.timestamp

theorem insertObservation {row : ObservationRow} (htimestamp : row.timestamp ∈ timestamps)
    (hinsert : tables.insertObservation row = .ok ((), tables')) :
  tables'.Stamped
  := by
  rw [MemoryTables.insertObservation] at hinsert
  split at hinsert
  · cases hinsert
  · split at hinsert
    · cases hinsert
    · cases hinsert
      constructor
      · apply h.createdAt
      · apply h.updatedAt
      · apply h.startedAt
      · rw [List.forall_mem_append, List.forall_mem_singleton]
        exact ⟨h.timestamp, htimestamp⟩

theorem insertSummary {row : SummaryRow} (hinsert : tables.insertSummary row = .ok ((), tables')) :
  tables'.Stamped
  := by
  rw [MemoryTables.insertSummary] at hinsert
  split at hinsert
  · cases hinsert
  · split at hinsert
    · cases hinsert
    · cases hinsert
      exact ⟨h.createdAt, h.updatedAt, h.startedAt, h.timestamp⟩

/-- A memory that is updated keeps the time of its creation. -/
theorem updateMemory {now : String} (hnow : now ∈ timestamps) (codec : TagCodec)
    (id content : String) (tags : List String) :
  (tables.updateMemory codec now id content tags).Stamped
  := by
  constructor
  · intro row hrow
    obtain ⟨old, hold, rfl⟩ := List.mem_map.mp hrow
    split
    · apply h.createdAt old hold
    · apply h.createdAt old hold
  · intro row hrow
    obtain ⟨old, hold, rfl⟩ := List.mem_map.mp hrow
    split
    · apply hnow
    · apply h.updatedAt old hold
  · apply h.startedAt
  · apply h.timestamp

theorem deleteMemory (id : String) :
  (tables.deleteMemory id).Stamped
  := by
  constructor
  · intro row hrow
    apply h.createdAt row (List.mem_of_mem_filter hrow)
  · intro row hrow
    apply h.updatedAt row (List.mem_of_mem_filter hrow)
  · apply h.startedAt
  · apply h.timestamp

/-- Sessions that are changed keep the time of their start. -/
theorem mapSessions {f : SessionRow → SessionRow} (hf : ∀ row, (f row).startedAt = row.startedAt) :
  { tables with sessions := tables.sessions.map f }.Stamped
  := by
  constructor
  · apply h.createdAt
  · apply h.updatedAt
  · intro row hrow
    obtain ⟨old, hold, rfl⟩ := List.mem_map.mp hrow
    rw [hf]
    apply h.startedAt old hold
  · apply h.timestamp

theorem endSession (now sessionId : String) :
  (tables.endSession now sessionId).Stamped
  := by
  apply h.mapSessions
  intro row
  split
  · rfl
  · rfl

theorem updateCounts (arithmetic : RealArithmetic) (currentTimestamp sessionId : String)
    (tokens messages tools : Int64) :
  (tables.updateCounts arithmetic currentTimestamp sessionId tokens messages tools).Stamped
  := by
  apply h.mapSessions
  intro row
  split
  · rfl
  · rfl

theorem setEmbeddings (embeddings : List EmbeddingRow) :
  { tables with embeddings := embeddings }.Stamped
  := ⟨h.createdAt, h.updatedAt, h.startedAt, h.timestamp⟩

end Stamped

end MemoryTables

/-! ### Programs that see the time -/

/-- A step of a program whose clock shows an instant, as `to_rfc3339` prints it. -/
def MemoryOp.TimedStep : Semantics MemoryOp MemoryAns MemoryState
  | .uuid, s, id, s' => MemoryOp.Step .uuid s id s'
  | .now, s, time, s' => (time : String) ∈ timestamps ∧ s' = s
  | .connection c, s, x, s' => MemoryOp.Step (.connection c) s x s'

namespace MemoryM

open MemoryTables

variable {α β : Type}

/-- At every step the program keeps the times in the tables, and a value it returns satisfies
`Q`. -/
abbrev Timely (Q : α → Prop) (program : MemoryM α) : Prop :=
  Program.Maintains MemoryOp.TimedStep (fun s => s.db.tables.Stamped)
    (fun r => ∀ a, r = .ok a → Q a) program.run

/-- The program keeps the times in the tables. -/
abbrev KeepsTimes (program : MemoryM α) : Prop :=
  Timely (fun _ => True) program

theorem keepsTimes_pure (a : α) :
  KeepsTimes (pure a)
  := by
  apply Program.Maintains.ret
  intro _ _
  trivial

theorem Timely.bind {Q : α → Prop} {Q' : β → Prop} {program : MemoryM α} {f : α → MemoryM β}
    (h : Timely Q program) (hf : ∀ a, Q a → Timely Q' (f a)) :
  Timely Q' (program >>= f)
  := Program.maintains_fallible_bind h hf

theorem KeepsTimes.bind {program : MemoryM α} {f : α → MemoryM β} (h : KeepsTimes program)
    (hf : ∀ a, KeepsTimes (f a)) :
  KeepsTimes (program >>= f)
  := Timely.bind h (fun a _ => hf a)

theorem KeepsTimes.discard {program : MemoryM α} (h : KeepsTimes program) :
  KeepsTimes (Functor.discard program)
  := by
  apply Timely.bind h
  intro _ _
  apply keepsTimes_pure

theorem KeepsTimes.mapError {program : MemoryM α} (h : KeepsTimes program) (g : String → String) :
  KeepsTimes (ExceptT.mk ((fun x : Except String α => x.mapError g) <$> program.run))
  := by
  apply Program.Maintains.map h
  intro _ _ _ _
  trivial

theorem keepsTimes_uuid :
  KeepsTimes uuid
  := by
  apply @Program.maintains_lift _ _ _ String MemoryAns _ MemoryOp.uuid (fun _ => True)
  rintro s id s' hs ⟨-, rfl⟩
  exact ⟨hs, trivial⟩

theorem timely_now :
  Timely (· ∈ timestamps) now
  := by
  apply @Program.maintains_lift _ _ _ String MemoryAns _ MemoryOp.now (· ∈ timestamps)
  rintro s now s' hs ⟨hnow, rfl⟩
  exact ⟨hs, hnow⟩

theorem keepsTimes_withConnection {c : Connection MemoryTables α}
    (h : Connection.Maintains Stamped c) :
  KeepsTimes (withConnection c)
  := by
  have hcall : Program.Maintains MemoryOp.TimedStep (fun s => s.db.tables.Stamped) (fun _ => True)
      (Program.call (MemoryOp.connection c)) := by
    apply Program.maintains_call
    rintro s x s' hs ⟨hon, -⟩
    have htables := (h s.db).1 hs
    rw [hon] at htables
    exact ⟨htables, trivial⟩
  apply hcall.map
  intro _ _ _ _
  trivial

theorem keepsTimes_execute {f : MemoryTables → MemoryTables}
    (h : ∀ tables, tables.Stamped → (f tables).Stamped) :
  KeepsTimes (withConnection (Connection.execute f))
  := keepsTimes_withConnection (Connection.maintains_execute h)

/-- A row is inserted under a new id and the time of now. -/
theorem keepsTimes_insert {c : String → String → Connection MemoryTables Unit}
    (h : ∀ id, ∀ now ∈ timestamps, Connection.Maintains Stamped (c id now)) :
  KeepsTimes (do
    let id ← uuid
    let now ← now
    withConnection (c id now)
    pure id)
  := by
  apply keepsTimes_uuid.bind
  intro id
  apply timely_now.bind
  intro now hnow
  apply (keepsTimes_withConnection (h id now hnow)).bind
  intro _
  apply keepsTimes_pure

/-! ### The calls -/

theorem keepsTimes_saveMemory (codec : TagCodec) (project category content : String)
    (tags : List String) :
  KeepsTimes (MemoryStorage.saveMemory codec project category content tags)
  := by
  apply keepsTimes_insert
  intro id now hnow
  apply Connection.maintains_statement
  intro tables _ tables' h hinsert
  apply h.insertMemory hnow hnow hinsert

theorem keepsTimes_updateMemory (codec : TagCodec) (id content : String) (tags : List String) :
  KeepsTimes (MemoryStorage.updateMemory codec id content tags)
  := by
  apply timely_now.bind
  intro now hnow
  apply keepsTimes_execute
  intro tables h
  apply h.updateMemory hnow

theorem keepsTimes_deleteMemory (id : String) :
  KeepsTimes (MemoryStorage.deleteMemory id)
  := by
  apply keepsTimes_execute
  intro tables h
  apply h.deleteMemory

theorem keepsTimes_startSession (project agentType model : String) :
  KeepsTimes (SessionManager.startSession project agentType model)
  := by
  apply keepsTimes_insert
  intro id now hnow
  apply Connection.maintains_statement
  intro tables _ tables' h hinsert
  apply h.insertSession hnow hinsert

theorem keepsTimes_endSession (sessionId summary : String) :
  KeepsTimes (SessionManager.endSession sessionId summary)
  := by
  apply timely_now.bind
  intro now _
  have hend : Connection.Maintains Stamped (Connection.execute (endSession now sessionId)) := by
    apply Connection.maintains_execute
    intro tables h
    apply h.endSession
  split
  · apply keepsTimes_withConnection hend
  · apply keepsTimes_uuid.bind
    intro summaryId
    apply keepsTimes_withConnection
    apply hend.bind
    intro _
    apply Connection.Maintains.bind (P := Stamped) Connection.maintains_select
    intro project
    apply Connection.maintains_statement
    intro tables _ tables' h hinsert
    apply h.insertSummary hinsert

theorem keepsTimes_updateCounts (arithmetic : RealArithmetic) (currentTimestamp sessionId : String)
    (tokens messages tools : Int64) :
  KeepsTimes
    (SessionManager.updateCounts arithmetic currentTimestamp sessionId tokens messages tools)
  := by
  apply keepsTimes_execute
  intro tables h
  apply h.updateCounts

theorem keepsTimes_saveObservation (sessionId observationType content : String)
    (context : Option String) :
  KeepsTimes (ObservationStorage.saveObservation sessionId observationType content context)
  := by
  apply keepsTimes_insert
  intro id now hnow
  apply Connection.Maintains.bind (P := Stamped) Connection.maintains_select
  intro project
  apply Connection.maintains_statement
  intro tables _ tables' h hinsert
  apply h.insertObservation hnow hinsert

theorem keepsTimes_saveObservationWithProject (sessionId project observationType content : String)
    (context : Option String) :
  KeepsTimes (ObservationStorage.saveObservationWithProject sessionId project observationType
    content context)
  := by
  apply keepsTimes_insert
  intro id now hnow
  apply Connection.maintains_statement
  intro tables _ tables' h hinsert
  apply h.insertObservation hnow hinsert

section Embeddings

variable {F : Type} [SingleFloat F]

theorem keepsTimes_storeEmbedding (embedding : Embedding F) :
  KeepsTimes (EmbeddingStore.store embedding)
  := by
  apply keepsTimes_execute
  intro tables h
  apply h.setEmbeddings

theorem keepsTimes_deleteEmbedding (entityType entityId : String) :
  KeepsTimes (EmbeddingStore.delete entityType entityId)
  := by
  apply keepsTimes_execute
  intro tables h
  apply h.setEmbeddings

/-! ### The tools -/

/-- A program made of programs that keep the times keeps them. -/
theorem compositional_keepsTimes :
  Compositional (fun _ program => KeepsTimes program)
  := by
  constructor
  · intro α x
    apply Program.Maintains.ret
    intro _ _
    trivial
  · intro α β program f h hf
    apply h.bind hf
  · intro α program h g
    apply h.mapError

theorem keepsTimes_handler (codec : TagCodec) (tool : MemoryWrite) (args : Json) :
  KeepsTimes (tool.handler F codec args)
  := by
  cases tool with
  | saveMemory =>
      apply compositional_keepsTimes.saveMemory (keepsTimes_saveMemory codec) keepsTimes_uuid
        keepsTimes_storeEmbedding
  | updateMemory => apply compositional_keepsTimes.updateMemory (keepsTimes_updateMemory codec)
  | deleteMemory =>
      apply compositional_keepsTimes.deleteMemory keepsTimes_deleteMemory keepsTimes_deleteEmbedding
  | startSession => apply compositional_keepsTimes.startSession keepsTimes_startSession
  | saveObservation => apply compositional_keepsTimes.saveObservation keepsTimes_saveObservation
  | endSession => apply compositional_keepsTimes.endSession keepsTimes_endSession

end Embeddings

end MemoryM

/-! ### Calls at once -/

/-- A call that writes: a tool, or a function of the stores. -/
inductive WritingCall (F : Type) where
  | tool (write : MemoryWrite) (args : Json)
  | saveMemory (project category content : String) (tags : List String)
  | updateMemory (id content : String) (tags : List String)
  | deleteMemory (id : String)
  | startSession (project agentType model : String)
  | endSession (sessionId summary : String)
  | updateCounts (arithmetic : RealArithmetic) (currentTimestamp sessionId : String)
      (tokens messages tools : Int64)
  | saveObservation (sessionId observationType content : String) (context : Option String)
  | saveObservationWithProject (sessionId project observationType content : String)
      (context : Option String)
  | storeEmbedding (embedding : Embedding F)
  | deleteEmbedding (entityType entityId : String)

section Calls

variable {F : Type} [SingleFloat F] (codec : TagCodec)

/-- The program of a call, without its answer. -/
def WritingCall.program : WritingCall F → MemoryM Unit
  | .tool write args => discard (write.handler F codec args)
  | .saveMemory project category content tags =>
      discard (MemoryStorage.saveMemory codec project category content tags)
  | .updateMemory id content tags => MemoryStorage.updateMemory codec id content tags
  | .deleteMemory id => MemoryStorage.deleteMemory id
  | .startSession project agentType model =>
      discard (SessionManager.startSession project agentType model)
  | .endSession sessionId summary => SessionManager.endSession sessionId summary
  | .updateCounts arithmetic currentTimestamp sessionId tokens messages tools =>
      SessionManager.updateCounts arithmetic currentTimestamp sessionId tokens messages tools
  | .saveObservation sessionId observationType content context =>
      discard (ObservationStorage.saveObservation sessionId observationType content context)
  | .saveObservationWithProject sessionId project observationType content context =>
      discard (ObservationStorage.saveObservationWithProject sessionId project observationType
        content context)
  | .storeEmbedding embedding => EmbeddingStore.store embedding
  | .deleteEmbedding entityType entityId => EmbeddingStore.delete entityType entityId

theorem WritingCall.keepsTimes (call : WritingCall F) :
  MemoryM.KeepsTimes (call.program codec)
  := by
  cases call with
  | tool write args => apply (MemoryM.keepsTimes_handler codec write args).discard
  | saveMemory project category content tags =>
      apply (MemoryM.keepsTimes_saveMemory codec project category content tags).discard
  | updateMemory id content tags => apply MemoryM.keepsTimes_updateMemory codec id content tags
  | deleteMemory id => apply MemoryM.keepsTimes_deleteMemory id
  | startSession project agentType model =>
      apply (MemoryM.keepsTimes_startSession project agentType model).discard
  | endSession sessionId summary => apply MemoryM.keepsTimes_endSession sessionId summary
  | updateCounts arithmetic currentTimestamp sessionId tokens messages tools =>
      apply MemoryM.keepsTimes_updateCounts
  | saveObservation sessionId observationType content context =>
      apply (MemoryM.keepsTimes_saveObservation sessionId observationType content context).discard
  | saveObservationWithProject sessionId project observationType content context =>
      apply (MemoryM.keepsTimes_saveObservationWithProject sessionId project observationType content
        context).discard
  | storeEmbedding embedding => apply MemoryM.keepsTimes_storeEmbedding embedding
  | deleteEmbedding entityType entityId => apply MemoryM.keepsTimes_deleteEmbedding

/-- The database of a new file, on which any statements may fail. -/
def MemoryState.newFailing (faults : List (Option String)) : MemoryState :=
  ⟨⟨MemoryTables.empty, faults⟩, []⟩

/-- Calls may run at once on a new file, in any order of their steps, and lead to the state. -/
def TimedRun (faults : List (Option String)) (calls : List (WritingCall F)) (s : MemoryState) :
    Prop :=
  ∃ threads, Pool.Run MemoryOp.TimedStep Pool.anyStep
    ⟨MemoryState.newFailing faults, calls.map (fun call => (call.program codec).run)⟩ ⟨s, threads⟩

theorem TimedRun.stamped {codec : TagCodec} {faults : List (Option String)}
    {calls : List (WritingCall F)} {s : MemoryState} (h : TimedRun codec faults calls s) :
  s.db.tables.Stamped
  := by
  obtain ⟨threads, hrun⟩ := h
  have hcalls : ∀ t ∈ calls.map (fun call => (call.program codec).run),
      Program.Maintains MemoryOp.TimedStep (fun s => s.db.tables.Stamped)
        (fun r => ∀ a, r = .ok a → True) t := by
    intro t ht
    obtain ⟨call, -, rfl⟩ := List.mem_map.mp ht
    apply call.keepsTimes
  apply (hrun.maintains MemoryTables.Stamped.empty hcalls).1

end Calls

/-! ### The order of rows -/

/-- The texts are those of instants that are in an order. -/
def InTime (before : Instant → Instant → Prop) (texts : List String) : Prop :=
  ∃ times : List Instant, texts = times.map toRfc3339 ∧ times.Pairwise before

/-- Every instant before the ones that follow it. -/
abbrev Ascending (texts : List String) : Prop :=
  InTime (fun s t => s ≤ t) texts

/-- Every instant after the ones that follow it. -/
abbrev Descending (texts : List String) : Prop :=
  InTime (fun s t => t ≤ s) texts

theorem exists_times {texts : List String} (h : ∀ text ∈ texts, text ∈ timestamps) :
  ∃ times : List Instant, texts = times.map toRfc3339
  := by
  induction texts with
  | nil => exact ⟨[], rfl⟩
  | cons text texts ih =>
      rw [List.forall_mem_cons] at h
      obtain ⟨t, rfl⟩ := h.1
      obtain ⟨times, rfl⟩ := ih h.2
      exact ⟨t :: times, rfl⟩

/-- Timestamps in an order of texts are in an order of time. -/
theorem inTime_of_pairwise {r : String → String → Prop} {before : Instant → Instant → Prop}
    (hr : ∀ s t, r (toRfc3339 s) (toRfc3339 t) → before s t) {texts : List String}
    (h : ∀ text ∈ texts, text ∈ timestamps) (hsorted : texts.Pairwise r) :
  InTime before texts
  := by
  obtain ⟨times, rfl⟩ := exists_times h
  use times, rfl
  apply (List.pairwise_map.mp hsorted).imp
  apply hr

section OrderBy

variable {ρ : Type} {stamp : ρ → String} (scan : Scan ρ) (rows : List ρ) {found : List ρ}
  (h : ∀ row ∈ rows, stamp row ∈ timestamps)

include h

/-- Rows that are found among those with timestamps. -/
theorem mem_timestamps_of_sublist {le : ρ → ρ → Bool}
    (hfound : found.Sublist (scan.orderBy le rows)) :
  ∀ text ∈ found.map stamp, text ∈ timestamps
  := by
  intro text htext
  obtain ⟨row, hrow, rfl⟩ := List.mem_map.mp htext
  apply h row (Scan.mem_orderBy.mp (hfound.subset hrow))

/-- `ORDER BY … ASC` on a column of timestamps. -/
theorem ascending_orderBy
    (hfound : found.Sublist (scan.orderBy (fun a b => stamp a ≤ stamp b) rows)) :
  Ascending (found.map stamp)
  := by
  apply inTime_of_pairwise (fun s t => (toRfc3339_le_iff s t).mp)
  · apply mem_timestamps_of_sublist scan rows h hfound
  · apply List.pairwise_map.mpr
    apply List.Pairwise.sublist hfound
    apply @Scan.pairwise_orderBy_rel _ (fun a b => stamp a ≤ stamp b)
    · intro a b c
      apply String.le_trans
    · intro a b
      apply String.le_total

/-- `ORDER BY … DESC` on a column of timestamps. -/
theorem descending_orderBy
    (hfound : found.Sublist (scan.orderBy (fun a b => stamp b ≤ stamp a) rows)) :
  Descending (found.map stamp)
  := by
  apply inTime_of_pairwise (r := fun a b => b ≤ a) (fun s t => (toRfc3339_le_iff t s).mp)
  · apply mem_timestamps_of_sublist scan rows h hfound
  · apply List.pairwise_map.mpr
    apply List.Pairwise.sublist hfound
    apply @Scan.pairwise_orderBy_rel _ (fun a b => stamp b ≤ stamp a)
    · intro a b c hab hbc
      apply String.le_trans hbc hab
    · intro a b
      apply String.le_total

end OrderBy

/-! ### The queries -/

section Queries

variable {s s' : MemoryState}

/-- What a keyword search returns are memories of the rows it finds. -/
theorem MemoryStorage.of_runs_searchMemoriesKeyword {scan : Scan MemoryRow} {codec : TagCodec}
    {project query : String} {category : Option String} {limit : ℕ} {memories : List Memory}
    (h : (searchMemoriesKeyword scan codec project query category limit).Runs s (.ok memories) s') :
  ∃ rows, s.db.tables.keywordRows scan project query category limit = .ok rows
    ∧ memories = rows.map (memoryFromRow codec)
  := by
  rw [searchMemoriesKeyword] at h
  rw [MemoryTables.keywordRows]
  by_cases hkeywords : (splitWhitespace query).isEmpty
  · rw [if_pos hkeywords] at h ⊢
    use s.db.tables.recentRows scan project category limit, rfl
    apply MemoryM.of_runs_query h
  · rw [if_neg hkeywords] at h ⊢
    have hselect := MemoryM.of_runs_select h
    cases hrows : s.db.tables.matchingRows scan project (splitWhitespace query) category limit with
    | error e =>
        rw [hrows] at hselect
        cases hselect
    | ok rows =>
        rw [hrows] at hselect
        exact ⟨rows, rfl, (Except.ok.inj hselect).symm⟩

theorem startedAt_of_sessionFromRow {row : SessionRow} {session : Session}
    (h : sessionFromRow row = .ok session) :
  session.startedAt = row.startedAt
  := by
  rw [sessionFromRow] at h
  obtain ⟨tokens, -, h⟩ := Outcome.bind_eq_ok.mp h
  obtain ⟨messages, -, h⟩ := Outcome.bind_eq_ok.mp h
  obtain ⟨tools, -, h⟩ := Outcome.bind_eq_ok.mp h
  cases h
  rfl

/-- The statistics of the sessions show the last start. -/
theorem SessionManager.of_runs_sessionStats {project last : String} {count : ℕ}
    (h : (sessionStats project).Runs s (.ok (count, some last)) s') :
  s.db.tables.lastStart project = some last
  := by
  obtain ⟨x, hon, -, hx⟩ := MemoryM.runs_withConnection.mp h
  cases x with
  | error e => cases hx
  | ok stats =>
      obtain rfl := Except.ok.inj hx
      obtain ⟨count', db, hcount, hon⟩ := Connection.bind_on_eq_ok.mp hon
      obtain ⟨found, db', hlast, hon⟩ := Connection.bind_on_eq_ok.mp hon
      rw [Connection.attempt_on] at hlast
      obtain ⟨hfound, -⟩ := Prod.mk.inj hlast
      obtain ⟨hstats, -⟩ := Prod.mk.inj hon
      obtain ⟨-, hsome⟩ := Prod.mk.inj (Except.ok.inj hstats)
      rw [← Except.ok.inj hfound, Outcome.toOption_join_eq_some] at hsome
      obtain ⟨hlast, -⟩ := Connection.query_on_eq_ok (Prod.ext hsome rfl)
      rw [hlast, (Connection.query_on_eq_ok hcount).2]

end Queries

/-! ### Rows in the order of time -/

/-- Every query that orders rows by a time returns them in the order of time, and the last start of
a session is the latest one. -/
structure MemoryState.Chronological (s : MemoryState) : Prop where
  listMemories : ∀ scan codec project category memories s',
    (MemoryStorage.listMemories scan codec project category).Runs s (.ok memories) s' →
      Descending (memories.map Memory.createdAt)
  listMemoriesPaginated : ∀ scan codec project category limit offset memories s',
    (MemoryStorage.listMemoriesPaginated scan codec project category limit offset).Runs s
      (.ok memories) s' → Descending (memories.map Memory.createdAt)
  recentMemories : ∀ scan codec project limit memories s',
    (MemoryStorage.recentMemories scan codec project limit).Runs s (.ok memories) s' →
      Descending (memories.map Memory.createdAt)
  searchMemoriesKeyword : ∀ scan codec project query category limit memories s',
    (MemoryStorage.searchMemoriesKeyword scan codec project query category limit).Runs s
      (.ok memories) s' → Descending (memories.map Memory.updatedAt)
  listSessions : ∀ scan project limit sessions s',
    (SessionManager.listSessions scan project limit).Runs s (.ok sessions) s' →
      Descending (sessions.map Session.startedAt)
  sessionStats : ∀ project count last s',
    (SessionManager.sessionStats project).Runs s (.ok (count, some last)) s' →
      ∃ t, last = toRfc3339 t
        ∧ (∃ row ∈ s.db.tables.projectSessions project, row.startedAt = toRfc3339 t)
        ∧ ∀ row ∈ s.db.tables.projectSessions project, ∃ t' ≤ t, row.startedAt = toRfc3339 t'
  listBySession : ∀ scan sessionId rows s',
    (ObservationStorage.listBySession scan sessionId).Runs s (.ok rows) s' →
      Ascending (rows.map ObservationRow.timestamp)
  listByProjectType : ∀ scan project observationType limit rows s',
    (ObservationStorage.listByProjectType scan project observationType limit).Runs s (.ok rows)
      s' → Descending (rows.map ObservationRow.timestamp)

namespace MemoryTables.Stamped

variable {tables : MemoryTables} (h : tables.Stamped)

include h

theorem descending_pageRows (scan : Scan MemoryRow) (project : String) (category : Option String)
    (limit offset : ℕ) :
  Descending ((tables.pageRows scan project category limit offset).map MemoryRow.createdAt)
  := by
  apply descending_orderBy scan (tables.projectMemories project category)
  · intro row hrow
    apply h.createdAt row (projectMemories_sublist.subset hrow)
  · apply (limit_sublist _ _).trans (List.drop_sublist _ _)

theorem descending_listRows (scan : Scan MemoryRow) (project : String) (category : Option String) :
  Descending ((tables.listRows scan project category).map MemoryRow.createdAt)
  := by
  apply descending_orderBy scan (tables.projectMemories project category)
  · intro row hrow
    apply h.createdAt row (projectMemories_sublist.subset hrow)
  · apply List.Sublist.refl

theorem descending_keywordRows {scan : Scan MemoryRow} {project query : String}
    {category : Option String} {limit : ℕ} {rows : List MemoryRow}
    (hrows : tables.keywordRows scan project query category limit = .ok rows) :
  Descending (rows.map MemoryRow.updatedAt)
  := by
  obtain ⟨selected, hselected, hlimit⟩ := keywordRows_eq_limit hrows
  rw [hlimit]
  apply descending_orderBy scan selected
  · intro row hrow
    apply h.updatedAt row (hselected.subset hrow)
  · apply limit_sublist

theorem descending_recentSessions (scan : Scan SessionRow) (project : String) (limit : ℕ) :
  Descending ((tables.recentSessions scan project limit).map SessionRow.startedAt)
  := by
  apply descending_orderBy scan (tables.projectSessions project)
  · intro row hrow
    apply h.startedAt row (List.mem_of_mem_filter hrow)
  · apply limit_sublist

/-- The last start is the latest one. -/
theorem lastStart {project last : String} (hlast : tables.lastStart project = some last) :
  ∃ t, last = toRfc3339 t
    ∧ (∃ row ∈ tables.projectSessions project, row.startedAt = toRfc3339 t)
    ∧ ∀ row ∈ tables.projectSessions project, ∃ t' ≤ t, row.startedAt = toRfc3339 t'
  := by
  obtain ⟨hmem, hmax⟩ := List.max?_eq_some_iff.mp hlast
  obtain ⟨row, hrow, rfl⟩ := List.mem_map.mp hmem
  obtain ⟨t, ht⟩ := h.startedAt row (List.mem_of_mem_filter hrow)
  refine ⟨t, ht.symm, ⟨row, hrow, ht.symm⟩, ?_⟩
  intro row' hrow'
  obtain ⟨t', ht'⟩ := h.startedAt row' (List.mem_of_mem_filter hrow')
  have hle := hmax row'.startedAt (List.mem_map_of_mem hrow')
  rw [← ht, ← ht', toRfc3339_le_iff] at hle
  exact ⟨t', hle, ht'.symm⟩

theorem ascending_sessionObservations (scan : Scan ObservationRow) (sessionId : String) :
  Ascending ((tables.sessionObservations scan sessionId).map ObservationRow.timestamp)
  := by
  apply ascending_orderBy scan
    (tables.observations.filter (fun row => row.sessionId = sessionId))
  · intro row hrow
    apply h.timestamp row (List.mem_of_mem_filter hrow)
  · apply List.Sublist.refl

theorem descending_recentObservations (scan : Scan ObservationRow) (project : String)
    (observationType : Option String) (limit : ℕ) :
  Descending
    ((tables.recentObservations scan project observationType limit).map ObservationRow.timestamp)
  := by
  apply descending_orderBy scan (tables.projectObservations project observationType)
  · intro row hrow
    apply h.timestamp row
    cases observationType with
    | some observationType => apply List.mem_of_mem_filter hrow
    | none => apply List.mem_of_mem_filter hrow
  · apply limit_sublist

end MemoryTables.Stamped

theorem createdAt_memoryFromRow (codec : TagCodec) (rows : List MemoryRow) :
  (rows.map (memoryFromRow codec)).map Memory.createdAt = rows.map MemoryRow.createdAt
  := List.map_map

theorem updatedAt_memoryFromRow (codec : TagCodec) (rows : List MemoryRow) :
  (rows.map (memoryFromRow codec)).map Memory.updatedAt = rows.map MemoryRow.updatedAt
  := List.map_map

/-- Where the times in the tables were printed by `to_rfc3339`, rows are in the order of time. -/
theorem MemoryState.chronological_of_stamped {s : MemoryState} (h : s.db.tables.Stamped) :
  s.Chronological
  := by
  have hpage : ∀ scan codec project category limit offset memories s',
      (MemoryStorage.listMemoriesPaginated scan codec project category limit offset).Runs s
        (.ok memories) s' → Descending (memories.map Memory.createdAt) := by
    intro scan codec project category limit offset memories s' hruns
    rw [MemoryM.of_runs_query hruns, createdAt_memoryFromRow]
    apply h.descending_pageRows
  constructor
  · intro scan codec project category memories s' hruns
    rw [MemoryM.of_runs_query hruns, createdAt_memoryFromRow]
    apply h.descending_listRows
  · apply hpage
  · intro scan codec project limit memories s' hruns
    apply hpage _ _ _ _ _ _ _ _ hruns
  · intro scan codec project query category limit memories s' hruns
    obtain ⟨rows, hrows, rfl⟩ := MemoryStorage.of_runs_searchMemoriesKeyword hruns
    rw [updatedAt_memoryFromRow]
    apply h.descending_keywordRows hrows
  · intro scan project limit sessions s' hruns
    have hsessions := MemoryM.of_runs_select hruns
    rw [Outcome.map_eq_of_mapM (fun _ _ => startedAt_of_sessionFromRow) hsessions]
    apply h.descending_recentSessions
  · intro project count last s' hruns
    apply h.lastStart (SessionManager.of_runs_sessionStats hruns)
  · intro scan sessionId rows s' hruns
    rw [MemoryM.of_runs_query hruns]
    apply h.ascending_sessionObservations
  · intro scan project observationType limit rows s' hruns
    rw [MemoryM.of_runs_query hruns]
    apply h.descending_recentObservations

/-- The bytes of the texts of instants are in the order of time.  So, whichever calls run at once,
and whichever statements fail, the rows that the queries return are in the order of time. -/
theorem chronological_of_run {F : Type} [SingleFloat F] {codec : TagCodec}
    {faults : List (Option String)} {calls : List (WritingCall F)} {s : MemoryState}
    (h : TimedRun codec faults calls s) :
  (∀ t t' : Instant,
    Utf8.bytes (toRfc3339 t).toList < Utf8.bytes (toRfc3339 t').toList ↔ t < t')
  ∧ s.Chronological
  := by
  constructor
  · apply bytes_toRfc3339_lt_iff
  · apply MemoryState.chronological_of_stamped h.stamped

/-! ### Two memories saved at once -/

/-- An instant in the first second of the year 2024. -/
def newYear (nanos : ℕ) (h : nanos < 10 ^ 9) : Instant where
  year := 2024
  month := 1
  day := 1
  hour := 0
  minute := 0
  second := 0
  nanos := nanos
  year_lt := by decide
  month_pos := by decide
  month_le := by decide
  day_pos := by decide
  day_le := by decide
  hour_lt := by decide
  minute_lt := by decide
  second_lt := by decide
  nanos_lt := h

/-- The time of the first memory, in three digits. -/
def halfPast : Instant :=
  newYear 500000000 (by decide)

/-- The time of the second memory, in six digits. -/
def earlier : Instant :=
  newYear 123456000 (by decide)

def saveTwo : List (WritingCall F32) :=
  [.saveMemory "alpha" "notes" "first" [], .saveMemory "alpha" "notes" "second" []]

/-- The state after rows were inserted. -/
def savedTwo (rows : List MemoryRow) : MemoryState :=
  ⟨⟨{ MemoryTables.empty with memories := rows }, []⟩, ["m2", "m1"]⟩

def firstRow : MemoryRow :=
  savedRow noTags "m1" (toRfc3339 halfPast) "alpha" "notes" "first" []

def secondRow : MemoryRow :=
  savedRow noTags "m2" (toRfc3339 earlier) "alpha" "notes" "second" []

theorem timedStep_insert {rows : List MemoryRow} (row : MemoryRow)
    (h : row.id ∉ rows.map MemoryRow.id) :
  MemoryOp.TimedStep (.connection (Connection.statement (MemoryTables.insertMemory row)))
    (savedTwo rows) (Except.ok () : Except String Unit) (savedTwo (rows ++ [row]))
  := by
  have hinsert : (savedTwo rows).db.tables.insertMemory row
      = .ok ((), (savedTwo (rows ++ [row])).db.tables) := if_neg h
  constructor
  · rw [Connection.statement_on rfl, hinsert]
    rfl
  · rfl

/-- The memory that is inserted last was saved earlier. -/
theorem timedRun_saveTwo :
  TimedRun noTags [] saveTwo (savedTwo [firstRow, secondRow])
  := by
  have hnew : "m2" ∉ ["m1"] := by decide
  have hnew' : secondRow.id ∉ [firstRow].map MemoryRow.id := hnew
  have hstart : Pool.Run MemoryOp.TimedStep Pool.anyStep
      ⟨MemoryState.newFailing [], saveTwo.map (fun call => (call.program noTags).run)⟩
      ⟨MemoryState.newFailing [], saveTwo.map (fun call => (call.program noTags).run)⟩ :=
    Pool.Run.refl
  have hrun := hstart.next 0 "m1" rfl trivial ⟨List.not_mem_nil, rfl⟩ rfl
  replace hrun := hrun.next 1 "m2" rfl trivial ⟨hnew, rfl⟩ rfl
  replace hrun := hrun.next 1 (toRfc3339 earlier) rfl trivial ⟨⟨earlier, rfl⟩, rfl⟩ rfl
  replace hrun := hrun.next 0 (toRfc3339 halfPast) rfl trivial ⟨⟨halfPast, rfl⟩, rfl⟩ rfl
  replace hrun := hrun.next 0 _ rfl trivial (timedStep_insert firstRow List.not_mem_nil) rfl
  replace hrun := hrun.next 1 _ rfl trivial (timedStep_insert secondRow hnew') rfl
  exact ⟨_, hrun⟩

theorem chronological_saveTwo :
  (savedTwo [firstRow, secondRow]).db.tables.memories.map MemoryRow.createdAt
      = ["2024-01-01T00:00:00.500+00:00", "2024-01-01T00:00:00.123456+00:00"]
    ∧ (savedTwo [firstRow, secondRow]).Chronological
  := by
  constructor
  · rfl
  · apply (chronological_of_run timedRun_saveTwo).2

end OrchestraRag
