import Mathlib.Data.String.Basic
import OrchestraRag.Memory.Tables

/-!
# Sessions and observations

The calls of `SessionManager` and `ObservationStorage`.  An observation and a summary take the
project of their session.
-/

namespace OrchestraRag

open Sql

/-! ### Sessions -/

/-- A single session record. -/
structure Session where
  id : String
  project : String
  startedAt : String
  endedAt : Option String
  agentType : String
  model : String
  tokenCount : Int64
  messageCount : Int64
  toolCount : Int64
  deriving DecidableEq

/-- Parse a session from a row; the counters must be integers. -/
def sessionFromRow (row : SessionRow) : Except String Session := do
  let tokenCount ← row.tokenCount.get 6 "token_count"
  let messageCount ← row.messageCount.get 7 "message_count"
  let toolCount ← row.toolCount.get 8 "tool_count"
  pure
    { id := row.id, project := row.project, startedAt := row.startedAt, endedAt := row.endedAt,
      agentType := row.agentType, model := row.model, tokenCount, messageCount, toolCount }

namespace MemoryTables

/-- The sessions of a project. -/
def projectSessions (project : String) (tables : MemoryTables) : List SessionRow :=
  tables.sessions.filter (fun session => session.project = project)

/-- The time at which the last session of a project started. -/
def lastStart (project : String) (tables : MemoryTables) : Option String :=
  ((tables.projectSessions project).map SessionRow.startedAt).max?

/-- Set the end of a session. -/
def endSession (now sessionId : String) (tables : MemoryTables) : MemoryTables :=
  let update (session : SessionRow) : SessionRow :=
    if session.id = sessionId
    then { session with endedAt := some now, updatedAt := some now }
    else session
  { tables with sessions := tables.sessions.map update }

/-- The session with an id. -/
def sessionRow (sessionId : String) (tables : MemoryTables) : Option SessionRow :=
  tables.sessions.find? (fun session => session.id = sessionId)

/-- `ORDER BY started_at DESC`. -/
def byStartedAt (a b : SessionRow) : Bool :=
  b.startedAt ≤ a.startedAt

/-- The last sessions of a project. -/
def recentSessions (scan : Scan SessionRow) (project : String) (limit : ℕ)
    (tables : MemoryTables) : List SessionRow :=
  Sql.limit (asI64 limit) (scan.orderBy byStartedAt (tables.projectSessions project))

/-- Increase the counters of a session. -/
def updateCounts (arithmetic : RealArithmetic) (currentTimestamp sessionId : String)
    (tokens messages tools : Int64) (tables : MemoryTables) : MemoryTables :=
  let update (session : SessionRow) : SessionRow :=
    if session.id = sessionId
    then { session with
      tokenCount := session.tokenCount.add arithmetic tokens
      messageCount := session.messageCount.add arithmetic messages
      toolCount := session.toolCount.add arithmetic tools
      updatedAt := some currentTimestamp }
    else session
  { tables with sessions := tables.sessions.map update }

end MemoryTables

namespace SessionManager

/-- Start a new session; returns its UUID. -/
def startSession (project agentType model : String) : MemoryM String := do
  let id ← MemoryM.uuid
  let now ← MemoryM.now
  MemoryM.withConnection (Connection.statement (MemoryTables.insertSession
    { id, project, startedAt := now, endedAt := none, agentType, model, tokenCount := 0,
      messageCount := 0, toolCount := 0, updatedAt := none }))
  pure id

/-- End a session; a summary that is not empty is stored with it. -/
def endSession (sessionId summary : String) : MemoryM Unit := do
  let now ← MemoryM.now
  if summary = ""
  then MemoryM.withConnection (Connection.execute (MemoryTables.endSession now sessionId))
  else do
    let summaryId ← MemoryM.uuid
    MemoryM.withConnection (do
      Connection.execute (MemoryTables.endSession now sessionId)
      let project ← Connection.select (MemoryTables.sessionProject sessionId)
      Connection.statement (MemoryTables.insertSummary
        { id := summaryId, sessionId, project, summaryType := "session_summary",
          content := summary, tokens := 0, timestamp := now }))

/-- Retrieve a session by its id. -/
def getSession (sessionId : String) : MemoryM (Option Session) :=
  MemoryM.withConnection (Connection.select fun tables =>
    (tables.sessionRow sessionId).mapM sessionFromRow)

/-- List recent sessions for a project, the last started first. -/
def listSessions (scan : Scan SessionRow) (project : String) (limit : ℕ) :
    MemoryM (List Session) :=
  MemoryM.withConnection (Connection.select fun tables =>
    (tables.recentSessions scan project limit).mapM sessionFromRow)

/-- Increment session counters; `CURRENT_TIMESTAMP` is the time of SQLite's clock. -/
def updateCounts (arithmetic : RealArithmetic) (currentTimestamp sessionId : String)
    (tokens messages tools : Int64) : MemoryM Unit :=
  MemoryM.withConnection (Connection.execute
    (MemoryTables.updateCounts arithmetic currentTimestamp sessionId tokens messages tools))

/-- The number of sessions of a project, and the start of the last one. -/
def sessionStats (project : String) : MemoryM (ℕ × Option String) :=
  MemoryM.withConnection (do
    let count ← Connection.query (fun tables => (tables.projectSessions project).length)
    let last ← Connection.attempt (Connection.query fun tables => tables.lastStart project)
    pure (count, last.toOption.join))

theorem reads_sessionStats {s : MemoryState} (h : s.db.Reliable) (project : String) :
  MemoryM.Reads s (sessionStats project)
    (.ok ((s.db.tables.projectSessions project).length, s.db.tables.lastStart project))
  := by
  apply MemoryM.reads_withConnection (x := .ok
    ((s.db.tables.projectSessions project).length, s.db.tables.lastStart project))
  rw [Connection.bind_on_ok (Connection.query_on_ok h.nextFault), h.after_self]
  have hlast := Connection.attempt_on
    (Connection.query fun tables => MemoryTables.lastStart project tables) s.db
  rw [Connection.query_on_ok h.nextFault, h.after_self] at hlast
  rw [Connection.bind_on_ok hlast]
  rfl

end SessionManager

/-! ### Observations -/

namespace MemoryTables

/-- `ORDER BY timestamp DESC`. -/
def byTimestamp (a b : ObservationRow) : Bool :=
  b.timestamp ≤ a.timestamp

/-- `ORDER BY timestamp ASC`. -/
def byTimestampAsc (a b : ObservationRow) : Bool :=
  a.timestamp ≤ b.timestamp

/-- The observations of a session, the first ones first. -/
def sessionObservations (scan : Scan ObservationRow) (sessionId : String)
    (tables : MemoryTables) : List ObservationRow :=
  scan.orderBy byTimestampAsc
    (tables.observations.filter (fun row => row.sessionId = sessionId))

/-- The observations of a project, of a type if one is given. -/
def projectObservations (project : String) (observationType : Option String)
    (tables : MemoryTables) : List ObservationRow :=
  match observationType with
  | some observationType => tables.observations.filter (fun row =>
      row.project = project ∧ row.observationType = observationType)
  | none => tables.observations.filter (fun row => row.project = project)

/-- The last observations of a project. -/
def recentObservations (scan : Scan ObservationRow) (project : String)
    (observationType : Option String) (limit : ℕ) (tables : MemoryTables) : List ObservationRow :=
  Sql.limit (asI64 limit)
    (scan.orderBy byTimestamp (tables.projectObservations project observationType))

end MemoryTables

namespace ObservationStorage

/-- Save a new observation, for the project of its session; returns its UUID. -/
def saveObservation (sessionId observationType content : String) (context : Option String) :
    MemoryM String := do
  let id ← MemoryM.uuid
  let now ← MemoryM.now
  MemoryM.withConnection (do
    let project ← Connection.select (MemoryTables.sessionProject sessionId)
    Connection.statement (MemoryTables.insertObservation
      { id, sessionId, project, observationType, content, context := some (context.getD ""),
        timestamp := now }))
  pure id

/-- Save a new observation with explicit project; returns its UUID. -/
def saveObservationWithProject (sessionId project observationType content : String)
    (context : Option String) : MemoryM String := do
  let id ← MemoryM.uuid
  let now ← MemoryM.now
  MemoryM.withConnection (Connection.statement (MemoryTables.insertObservation
    { id, sessionId, project, observationType, content, context := some (context.getD ""),
      timestamp := now }))
  pure id

/-- List observations for a session, in the order of time. -/
def listBySession (scan : Scan ObservationRow) (sessionId : String) :
    MemoryM (List ObservationRow) :=
  MemoryM.withConnection (Connection.query fun tables =>
    tables.sessionObservations scan sessionId)

/-- List observations by project, optionally filtered by type, the last first. -/
def listByProjectType (scan : Scan ObservationRow) (project : String)
    (observationType : Option String) (limit : ℕ) : MemoryM (List ObservationRow) :=
  MemoryM.withConnection (Connection.query fun tables =>
    tables.recentObservations scan project observationType limit)

theorem reads_listByProjectType {s : MemoryState} (h : s.db.Reliable)
    (scan : Scan ObservationRow) (project : String) (observationType : Option String)
    (limit : ℕ) :
  MemoryM.Reads s (listByProjectType scan project observationType limit)
    (.ok (s.db.tables.recentObservations scan project observationType limit))
  := MemoryM.reads_query h _

end ObservationStorage

end OrchestraRag
