import OrchestraRag.Library.Program
import OrchestraRag.Library.Sql
import OrchestraRag.Library.StoredNumber

/-!
# The memory tables

The tables of the memory services, and the programs on them.  A program takes a new UUID,
looks at the clock, or holds the connection for a computation; between two of these steps
other programs may run.

A program that only reads, on a reliable database, is a function of the tables: `Reads s
program r` says that from `s` it returns `r` and leaves `s`.
-/

namespace OrchestraRag

open Sql

/-! ### Rows -/

/-- A row of `memories`; its tags are JSON text. -/
structure MemoryRow where
  id : String
  project : String
  category : String
  content : String
  tags : Option String
  createdAt : String
  updatedAt : String
  deriving DecidableEq

/-- A row of `embeddings`; its vector is a blob. -/
structure EmbeddingRow where
  id : String
  entityType : String
  entityId : String
  project : String
  model : String
  vector : List UInt8
  dimension : ℤ
  deriving DecidableEq

/-- A row of `sessions`; its counters are columns of type INTEGER, which may hold a REAL. -/
structure SessionRow where
  id : String
  project : String
  startedAt : String
  endedAt : Option String
  agentType : String
  model : String
  tokenCount : StoredNumber
  messageCount : StoredNumber
  toolCount : StoredNumber
  updatedAt : Option String
  deriving DecidableEq

/-- A row of `observations`. -/
structure ObservationRow where
  id : String
  sessionId : String
  project : String
  observationType : String
  content : String
  context : Option String
  timestamp : String
  deriving DecidableEq

/-- A row of `summaries`. -/
structure SummaryRow where
  id : String
  sessionId : String
  project : String
  summaryType : String
  content : String
  tokens : ℤ
  timestamp : String
  deriving DecidableEq

structure MemoryTables where
  sessions : List SessionRow
  observations : List ObservationRow
  summaries : List SummaryRow
  embeddings : List EmbeddingRow
  memories : List MemoryRow

namespace MemoryTables

/-- The tables after `MemorySchema::init` on a new file. -/
def empty : MemoryTables :=
  ⟨[], [], [], [], []⟩

/-- `INSERT INTO memories`. -/
def insertMemory (row : MemoryRow) (tables : MemoryTables) : Except String (Unit × MemoryTables) :=
  if row.id ∈ tables.memories.map MemoryRow.id
  then .error "UNIQUE constraint failed: memories.id"
  else .ok ((), { tables with memories := tables.memories ++ [row] })

/-- `INSERT OR REPLACE INTO embeddings`: the rows with the same id or the same entity and model
are deleted. -/
def replaceEmbedding (row : EmbeddingRow) (tables : MemoryTables) : MemoryTables :=
  let conflicts (other : EmbeddingRow) : Bool :=
    other.id = row.id ∨ (other.entityType = row.entityType ∧ other.entityId = row.entityId
      ∧ other.model = row.model)
  { tables with
    embeddings := tables.embeddings.filter (fun other => !conflicts other) ++ [row] }

/-- `INSERT INTO sessions`. -/
def insertSession (row : SessionRow) (tables : MemoryTables) :
    Except String (Unit × MemoryTables) :=
  if row.id ∈ tables.sessions.map SessionRow.id
  then .error "UNIQUE constraint failed: sessions.id"
  else .ok ((), { tables with sessions := tables.sessions ++ [row] })

/-- `INSERT INTO observations`; the session must exist. -/
def insertObservation (row : ObservationRow) (tables : MemoryTables) :
    Except String (Unit × MemoryTables) :=
  if row.id ∈ tables.observations.map ObservationRow.id
  then .error "UNIQUE constraint failed: observations.id"
  else if row.sessionId ∉ tables.sessions.map SessionRow.id
  then .error "FOREIGN KEY constraint failed"
  else .ok ((), { tables with observations := tables.observations ++ [row] })

/-- `INSERT INTO summaries`; the session must exist. -/
def insertSummary (row : SummaryRow) (tables : MemoryTables) :
    Except String (Unit × MemoryTables) :=
  if row.id ∈ tables.summaries.map SummaryRow.id
  then .error "UNIQUE constraint failed: summaries.id"
  else if row.sessionId ∉ tables.sessions.map SessionRow.id
  then .error "FOREIGN KEY constraint failed"
  else .ok ((), { tables with summaries := tables.summaries ++ [row] })

/-- `SELECT project FROM sessions WHERE id = ?1`, which must find a row. -/
def sessionProject (sessionId : String) (tables : MemoryTables) : Except String String :=
  match tables.sessions.find? (fun session => session.id = sessionId) with
  | some session => .ok session.project
  | none => .error "Query returned no rows"

end MemoryTables

/-! ### Programs -/

/-- The database, and the UUIDs issued so far. -/
structure MemoryState where
  db : Db MemoryTables
  issued : List String

/-- A step of a program: take a new UUID, look at the clock, or hold the connection. -/
inductive MemoryOp where
  | uuid
  | now
  | connection {α : Type} (c : Connection MemoryTables α)

/-- What a step answers. -/
def MemoryAns : MemoryOp → Type
  | .uuid => String
  | .now => String
  | @MemoryOp.connection α _ => Except String α

/-- What a step does.  A UUID is new, and the clock may show any time. -/
def MemoryOp.Step : Semantics MemoryOp MemoryAns MemoryState
  | .uuid, s, id, s' => (id : String) ∉ s.issued ∧ s' = { s with issued := id :: s.issued }
  | .now, s, _, s' => s' = s
  | .connection c, s, x, s' => c.on s.db = (x, s'.db) ∧ s'.issued = s.issued

/-- A program on the memory tables; its errors are messages. -/
abbrev MemoryM (α : Type) : Type 1 :=
  ExceptT String (Program MemoryOp MemoryAns) α

namespace MemoryM

def uuid : MemoryM String :=
  ExceptT.lift (Program.call MemoryOp.uuid)

/-- The time, as `to_rfc3339` prints it. -/
def now : MemoryM String :=
  ExceptT.lift (Program.call MemoryOp.now)

/-- Hold the connection for a computation. -/
def withConnection {α : Type} (c : Connection MemoryTables α) : MemoryM α :=
  ExceptT.mk ((fun x : Except String α => x.mapError ("SQLite error: " ++ ·))
    <$> Program.call (MemoryOp.connection c))

/-- Say which call failed. -/
def named {α : Type} (call : String) (program : MemoryM α) : MemoryM α :=
  ExceptT.mk ((fun x : Except String α => x.mapError (call ++ ·)) <$> program.run)

/-- The result of a program, failed or not. -/
def result {α : Type} (program : MemoryM α) : MemoryM (Except String α) :=
  ExceptT.lift program.run

/-- The program may return `r` and leave `s'`. -/
abbrev Runs {α : Type} (program : MemoryM α) (s : MemoryState) (r : Except String α)
    (s' : MemoryState) : Prop :=
  Program.Exec MemoryOp.Step program.run s r s'

/-! ### Reading programs -/

/-- From `s` the program returns `r` and leaves `s`. -/
def Reads {α : Type} (s : MemoryState) (program : MemoryM α) (r : Except String α) : Prop :=
  ∀ x s', program.Runs s x s' ↔ x = r ∧ s' = s

section Reads

variable {α β : Type} {s : MemoryState} {program : MemoryM α} {f : α → MemoryM β}

theorem reads_pure (a : α) :
  Reads s (pure a) (.ok a)
  := fun _ _ => Program.exec_ret

theorem Reads.bind {a : α} {r : Except String β} (h : Reads s program (.ok a))
    (hf : Reads s (f a) r) :
  Reads s (program >>= f) r
  := by
  intro x s'
  rw [Runs, ExceptT.run, Program.exec_fallible_bind]
  constructor
  · rintro (⟨a', s₁, hprogram, hrest⟩ | ⟨e, -, hprogram⟩)
    · obtain ⟨ha, rfl⟩ := (h _ _).mp hprogram
      cases ha
      apply (hf x s').mp hrest
    · cases ((h _ _).mp hprogram).1
  · intro hresult
    exact Or.inl ⟨a, s, (h _ _).mpr ⟨rfl, rfl⟩, (hf x s').mpr hresult⟩

theorem Reads.bind_error {e : String} (h : Reads s program (.error e)) :
  Reads s (program >>= f) (.error e)
  := by
  intro x s'
  rw [Runs, ExceptT.run, Program.exec_fallible_bind]
  constructor
  · rintro (⟨a', s₁, hprogram, -⟩ | ⟨e', rfl, hprogram⟩)
    · cases ((h _ _).mp hprogram).1
    · obtain ⟨he, rfl⟩ := (h _ _).mp hprogram
      cases he
      exact ⟨rfl, rfl⟩
  · rintro ⟨rfl, rfl⟩
    exact Or.inr ⟨e, rfl, (h _ _).mpr ⟨rfl, rfl⟩⟩

theorem Reads.map_error {r : Except String α} (h : Reads s program r) (g : String → String) :
  Reads s (ExceptT.mk ((fun x : Except String α => x.mapError g) <$> program.run) : MemoryM α)
    (r.mapError g)
  := by
  intro x s'
  rw [Runs, ExceptT.run, ExceptT.mk, Program.exec_map]
  constructor
  · rintro ⟨a, hprogram, rfl⟩
    obtain ⟨rfl, rfl⟩ := (h _ _).mp hprogram
    exact ⟨rfl, rfl⟩
  · rintro ⟨rfl, rfl⟩
    exact ⟨r, (h _ _).mpr ⟨rfl, rfl⟩, rfl⟩

theorem Reads.named {r : Except String α} (h : Reads s program r) (call : String) :
  Reads s (program.named call) (r.mapError (call ++ ·))
  := h.map_error _

theorem Reads.result {r : Except String α} (h : Reads s program r) :
  Reads s program.result (.ok r)
  := by
  intro x s'
  have hlift : Program.Exec MemoryOp.Step (Except.ok <$> program.run) s x s'
      ↔ ∃ a, Program.Exec MemoryOp.Step program.run s a s' ∧ x = .ok a := Program.exec_map
  rw [Runs]
  refine Iff.trans hlift ?_
  constructor
  · rintro ⟨a, hprogram, rfl⟩
    obtain ⟨rfl, rfl⟩ := (h _ _).mp hprogram
    exact ⟨rfl, rfl⟩
  · rintro ⟨rfl, rfl⟩
    exact ⟨r, (h _ _).mpr ⟨rfl, rfl⟩, rfl⟩

/-- A reading program returns one result. -/
theorem Reads.unique {r r' : Except String α} (h : Reads s program r) (h' : Reads s program r') :
  r = r'
  := ((h' r s).mp ((h r s).mpr ⟨rfl, rfl⟩)).1

/-- A computation that leaves the database is a read. -/
theorem reads_withConnection {c : Connection MemoryTables α} {x : Except String α}
    (h : c.on s.db = (x, s.db)) :
  Reads s (withConnection c) (x.mapError ("SQLite error: " ++ ·))
  := by
  have hcall : Reads s (ExceptT.mk (Program.call (MemoryOp.connection c)) : MemoryM α) x := by
    intro y s'
    apply Iff.trans Program.exec_call
    constructor
    · rintro ⟨hon, hissued⟩
      rw [h] at hon
      obtain ⟨rfl, hdb⟩ := Prod.mk.inj hon
      obtain ⟨db, issued⟩ := s'
      obtain rfl := hdb
      obtain rfl := hissued
      exact ⟨rfl, rfl⟩
    · rintro ⟨rfl, rfl⟩
      exact ⟨h, rfl⟩
  apply hcall.map_error

/-- A query answers from the tables. -/
theorem reads_query (h : s.db.Reliable) (find : MemoryTables → α) :
  Reads s (withConnection (Connection.query find)) (.ok (find s.db.tables))
  := by
  have hon : (Connection.query find).on s.db = (.ok (find s.db.tables), s.db) := by
    rw [Connection.query_on_ok h.nextFault, h.after_self]
  apply reads_withConnection hon

/-- A query that may fail answers from the tables. -/
theorem reads_select (h : s.db.Reliable) (find : MemoryTables → Except String α) :
  Reads s (withConnection (Connection.select find))
    ((find s.db.tables).mapError ("SQLite error: " ++ ·))
  := by
  have hon : (Connection.select find).on s.db = (find s.db.tables, s.db) := by
    rw [Connection.select_on h.nextFault, h.after_self]
  apply reads_withConnection hon

end Reads

/-! ### Two runs of a reading program -/

/-- From both states the program returns the same, and a value it returns satisfies `P`. -/
def ReadsSame {α : Type} (s s' : MemoryState) (program : MemoryM α) (P : α → Prop) : Prop :=
  ∃ r, Reads s program r ∧ Reads s' program r ∧ ∀ a, r = .ok a → P a

section ReadsSame

variable {α β : Type} {s s' : MemoryState} {program : MemoryM α} {f : α → MemoryM β}
  {P : α → Prop} {Q : β → Prop}

theorem readsSame_pure {a : α} (h : P a) :
  ReadsSame s s' (pure a) P
  := by
  use .ok a, reads_pure a, reads_pure a
  rintro b ⟨⟩
  apply h

theorem ReadsSame.bind (h : ReadsSame s s' program P) (hf : ∀ a, P a → ReadsSame s s' (f a) Q) :
  ReadsSame s s' (program >>= f) Q
  := by
  obtain ⟨e | a, hs, hs', hP⟩ := h
  · use .error e, hs.bind_error, hs'.bind_error
    rintro b ⟨⟩
  · obtain ⟨r, hrest, hrest', hQ⟩ := hf a (hP a rfl)
    exact ⟨r, hs.bind hrest, hs'.bind hrest', hQ⟩

theorem ReadsSame.named (h : ReadsSame s s' program P) (call : String) :
  ReadsSame s s' (program.named call) P
  := by
  obtain ⟨r, hs, hs', hP⟩ := h
  use r.mapError (call ++ ·), hs.named call, hs'.named call
  rcases r with e | a
  · rintro b ⟨⟩
  · rintro b ⟨⟩
    apply hP a rfl

theorem readsSame_of_reads {r : Except String α} (h : Reads s program r)
    (h' : Reads s' program r) (hP : ∀ a, r = .ok a → P a) :
  ReadsSame s s' program P
  := ⟨r, h, h', hP⟩

/-- What holds of a value seen from either state holds of it. -/
theorem ReadsSame.and_symm {P' : α → Prop} (h : ReadsSame s s' program P)
    (h' : ReadsSame s' s program P') :
  ReadsSame s s' program (fun a => P a ∧ P' a)
  := by
  obtain ⟨r, hs, hs', hP⟩ := h
  obtain ⟨r', -, hs'', hP'⟩ := h'
  obtain rfl := hs''.unique hs
  use r', hs, hs'
  intro a ha
  exact ⟨hP a ha, hP' a ha⟩

end ReadsSame

end MemoryM

end OrchestraRag
