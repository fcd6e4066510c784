import OrchestraRag.Memory.Chronology
import OrchestraRag.Memory.Linearizable

/-!
# What statements change

A relation between tables that every statement follows is followed by every step of every program
on the memory tables (`MemoryCall.follows`, `WritingCall.follows`), whichever statements fail.
Deletions of memories stand apart: a relation need not allow them when there are none.
-/

namespace OrchestraRag

open Sql

/-! ### Statements -/

/-- A preorder that all statements follow but deletions of memories. -/
structure MemoryTables.Followed (Rel : MemoryTables → MemoryTables → Prop) : Prop where
  refl : ∀ tables, Rel tables tables
  trans : ∀ tables tables' tables'', Rel tables tables' → Rel tables' tables'' → Rel tables tables''
  insertMemory : ∀ row tables tables', tables.insertMemory row = .ok ((), tables') →
    Rel tables tables'
  updateMemory : ∀ codec now id content tags tables,
    Rel tables (tables.updateMemory codec now id content tags)
  insertSession : ∀ row tables tables', tables.insertSession row = .ok ((), tables') →
    Rel tables tables'
  endSession : ∀ now sessionId tables, Rel tables (tables.endSession now sessionId)
  updateCounts : ∀ arithmetic currentTimestamp sessionId tokens messages tools tables,
    Rel tables (tables.updateCounts arithmetic currentTimestamp sessionId tokens messages tools)
  insertObservation : ∀ row tables tables', tables.insertObservation row = .ok ((), tables') →
    Rel tables tables'
  insertSummary : ∀ row tables tables', tables.insertSummary row = .ok ((), tables') →
    Rel tables tables'
  setEmbeddings : ∀ embeddings (tables : MemoryTables),
    Rel tables { tables with embeddings := embeddings }

/-- Deletions of memories follow the relation, too. -/
def MemoryTables.AllowsDeletion (Rel : MemoryTables → MemoryTables → Prop) : Prop :=
  ∀ id tables, Rel tables (tables.deleteMemory id)

section Followed

variable {Rel : MemoryTables → MemoryTables → Prop}

/-- What the operation does to the tables follows the relation. -/
def MemoryOp.Follows (Rel : MemoryTables → MemoryTables → Prop) : MemoryOp → Prop
  | .uuid => True
  | .now => True
  | .connection c => ∀ tables, Connection.Maintains (Rel tables) c

theorem MemoryOp.Follows.step (h : MemoryTables.Followed Rel) {op : MemoryOp} {s s' : MemoryState}
    {x : MemoryAns op} (hop : op.Follows Rel) (hstep : MemoryOp.Step op s x s') :
  Rel s.db.tables s'.db.tables
  := by
  cases op with
  | uuid =>
      obtain ⟨-, rfl⟩ := hstep
      apply h.refl
  | now =>
      obtain rfl := hstep
      apply h.refl
  | connection c =>
      obtain ⟨hon, -⟩ := hstep
      have htables := (hop s.db.tables s.db).1 (h.refl s.db.tables)
      rw [hon] at htables
      apply htables

/-- No operation makes statements fail. -/
theorem MemoryOp.Follows.reliable {op : MemoryOp} {s s' : MemoryState} {x : MemoryAns op}
    (hop : op.Follows Rel) (hstep : MemoryOp.Step op s x s') (hs : s.db.Reliable) :
  s'.db.Reliable
  := by
  cases op with
  | uuid =>
      obtain ⟨-, rfl⟩ := hstep
      apply hs
  | now =>
      obtain rfl := hstep
      apply hs
  | connection c =>
      obtain ⟨hon, -⟩ := hstep
      have hreliable := (hop s.db.tables s.db).2 hs
      rw [hon] at hreliable
      apply hreliable

/-- What a run of programs that follow the relation does to the tables follows it. -/
theorem follows_of_run {α : Type} {Guard : ℕ → Pool MemoryOp MemoryAns α MemoryState → Prop}
    {c c' : Pool MemoryOp MemoryAns α MemoryState} (h : MemoryTables.Followed Rel)
    (hrun : Pool.Run MemoryOp.Step Guard c c')
    (hthreads : ∀ t ∈ c.threads, t.Uses (MemoryOp.Follows Rel)) :
  Rel c.state.db.tables c'.state.db.tables ∧ ∀ t ∈ c'.threads, t.Uses (MemoryOp.Follows Rel)
  := by
  have hkeeps : ∀ op (s : MemoryState) (x : MemoryAns op) s', MemoryOp.Follows Rel op →
      Rel c.state.db.tables s.db.tables → MemoryOp.Step op s x s' →
      Rel c.state.db.tables s'.db.tables := by
    intro op s x s' hop hs hstep
    apply h.trans _ _ _ hs (hop.step h hstep)
  exact hrun.invariant_of_uses hkeeps (h.refl _) hthreads

namespace MemoryM

/-- What every operation of the program does to the tables follows the relation. -/
abbrev Follows {α : Type} (Rel : MemoryTables → MemoryTables → Prop) (program : MemoryM α) : Prop :=
  program.run.Uses (MemoryOp.Follows Rel)

variable {α β : Type} {program : MemoryM α}

theorem follows_uuid :
  Follows Rel uuid
  := (@Program.uses_call _ (MemoryOp.Follows Rel) MemoryAns .uuid trivial).map _

theorem follows_now :
  Follows Rel now
  := (@Program.uses_call _ (MemoryOp.Follows Rel) MemoryAns .now trivial).map _

theorem Follows.bind {f : α → MemoryM β} (h : Follows Rel program) (hf : ∀ a, Follows Rel (f a)) :
  Follows Rel (program >>= f)
  := Program.uses_fallible_bind h hf

theorem Follows.discard (h : Follows Rel program) :
  Follows Rel (Functor.discard program)
  := by
  apply h.bind
  intro _
  apply Program.Uses.ret

theorem Follows.result (h : Follows Rel program) :
  Follows Rel program.result
  := Program.Uses.map h _

theorem follows_withConnection {c : Connection MemoryTables α}
    (h : ∀ tables, Connection.Maintains (Rel tables) c) :
  Follows Rel (withConnection c)
  := (@Program.uses_call _ (MemoryOp.Follows Rel) MemoryAns (.connection c) h).map _

theorem follows_query {find : MemoryTables → α} :
  Follows Rel (withConnection (Connection.query find))
  := follows_withConnection (fun _ => Connection.maintains_query)

theorem follows_select {find : MemoryTables → Except String α} :
  Follows Rel (withConnection (Connection.select find))
  := follows_withConnection (fun _ => Connection.maintains_select)

variable (h : MemoryTables.Followed Rel)

include h

theorem maintains_execute {change : MemoryTables → MemoryTables}
    (hchange : ∀ tables, Rel tables (change tables)) (tables : MemoryTables) :
  Connection.Maintains (Rel tables) (Connection.execute change)
  := by
  apply Connection.maintains_execute
  intro tables' hbefore
  apply h.trans _ _ _ hbefore (hchange tables')

theorem maintains_statement {change : MemoryTables → Except String (Unit × MemoryTables)}
    (hchange : ∀ tables tables', change tables = .ok ((), tables') → Rel tables tables')
    (tables : MemoryTables) :
  Connection.Maintains (Rel tables) (Connection.statement change)
  := by
  apply Connection.maintains_statement
  intro tables' _ tables'' hbefore hafter
  apply h.trans _ _ _ hbefore (hchange tables' tables'' hafter)

theorem follows_execute {change : MemoryTables → MemoryTables}
    (hchange : ∀ tables, Rel tables (change tables)) :
  Follows Rel (withConnection (Connection.execute change))
  := follows_withConnection (maintains_execute h hchange)

omit h in
/-- A row is inserted under a new id. -/
theorem follows_insert {c : String → String → Connection MemoryTables Unit}
    (h : ∀ id now tables, Connection.Maintains (Rel tables) (c id now)) :
  Follows Rel (do
    let id ← uuid
    let now ← now
    withConnection (c id now)
    pure id)
  := by
  apply follows_uuid.bind
  intro id
  apply follows_now.bind
  intro now
  apply (follows_withConnection (h id now)).bind
  intro _
  apply Program.Uses.ret

/-! ### The calls -/

theorem follows_saveMemory (codec : TagCodec) (project category content : String)
    (tags : List String) :
  Follows Rel (MemoryStorage.saveMemory codec project category content tags)
  := follows_insert (fun _ _ => maintains_statement h (h.insertMemory _))

theorem follows_updateMemory (codec : TagCodec) (id content : String) (tags : List String) :
  Follows Rel (MemoryStorage.updateMemory codec id content tags)
  := by
  apply follows_now.bind
  intro now
  apply follows_execute h (h.updateMemory codec now id content tags)

theorem follows_deleteMemory (hdelete : MemoryTables.AllowsDeletion Rel) (id : String) :
  Follows Rel (MemoryStorage.deleteMemory id)
  := follows_execute h (hdelete id)

theorem follows_startSession (project agentType model : String) :
  Follows Rel (SessionManager.startSession project agentType model)
  := follows_insert (fun _ _ => maintains_statement h (h.insertSession _))

theorem follows_endSession (sessionId summary : String) :
  Follows Rel (SessionManager.endSession sessionId summary)
  := by
  apply follows_now.bind
  intro now
  split
  · apply follows_execute h (h.endSession now sessionId)
  · apply follows_uuid.bind
    intro summaryId
    apply follows_withConnection
    intro tables
    apply Connection.Maintains.bind (P := Rel tables)
      (maintains_execute h (h.endSession now sessionId) tables)
    intro _
    apply Connection.Maintains.bind (P := Rel tables) Connection.maintains_select
    intro project
    apply maintains_statement h (h.insertSummary _)

theorem follows_updateCounts (arithmetic : RealArithmetic) (currentTimestamp sessionId : String)
    (tokens messages tools : Int64) :
  Follows Rel
    (SessionManager.updateCounts arithmetic currentTimestamp sessionId tokens messages tools)
  := follows_execute h
    (h.updateCounts arithmetic currentTimestamp sessionId tokens messages tools)

theorem follows_saveObservation (sessionId observationType content : String)
    (context : Option String) :
  Follows Rel (ObservationStorage.saveObservation sessionId observationType content context)
  := by
  apply follows_insert
  intro id now tables
  apply Connection.Maintains.bind (P := Rel tables) Connection.maintains_select
  intro project
  apply maintains_statement h (h.insertObservation _)

theorem follows_saveObservationWithProject (sessionId project observationType content : String)
    (context : Option String) :
  Follows Rel (ObservationStorage.saveObservationWithProject sessionId project observationType
    content context)
  := follows_insert (fun _ _ => maintains_statement h (h.insertObservation _))

omit h in
theorem follows_sessionStats (project : String) :
  Follows Rel (SessionManager.sessionStats project)
  := by
  apply follows_withConnection
  intro tables
  apply Connection.Maintains.bind (P := Rel tables) Connection.maintains_query
  intro count
  apply Connection.Maintains.bind (P := Rel tables) Connection.maintains_query.attempt
  intro last
  apply Connection.maintains_pure

section Tools

variable {F : Type} [SingleFloat F]

theorem follows_storeEmbedding (embedding : Embedding F) :
  Follows Rel (EmbeddingStore.store embedding)
  := follows_execute h (fun tables => h.setEmbeddings _ tables)

theorem follows_deleteEmbedding (entityType entityId : String) :
  Follows Rel (EmbeddingStore.delete entityType entityId)
  := follows_execute h (fun tables => h.setEmbeddings _ tables)

/-! ### The tools -/

theorem follows_write (codec : TagCodec) {tool : MemoryWrite}
    (hdelete : tool = .deleteMemory → MemoryTables.AllowsDeletion Rel) (args : Json) :
  Follows Rel (tool.handler F codec args)
  := by
  have hfollows := compositional_uses (MemoryOp.Follows Rel)
  cases tool with
  | saveMemory =>
      apply hfollows.saveMemory (follows_saveMemory h codec) follows_uuid (follows_storeEmbedding h)
  | updateMemory => apply hfollows.updateMemory (follows_updateMemory h codec)
  | deleteMemory =>
      apply hfollows.deleteMemory (follows_deleteMemory h (hdelete rfl)) (follows_deleteEmbedding h)
  | startSession => apply hfollows.startSession (follows_startSession h)
  | saveObservation => apply hfollows.saveObservation (follows_saveObservation h)
  | endSession => apply hfollows.endSession (follows_endSession h)

omit h

section Reads

variable (sorting : SortBy) (orders : Orders F) (codec : TagCodec)

theorem follows_searchMemoriesKeyword (scan : Scan MemoryRow) (project query : String)
    (category : Option String) (limit : ℕ) :
  Follows Rel (MemoryStorage.searchMemoriesKeyword scan codec project query category limit)
  := by
  rw [MemoryStorage.searchMemoriesKeyword]
  split
  · apply follows_query
  · apply follows_select

theorem follows_mergeVectors {lookup : String → MemoryM (Except String (Option Memory))}
    (hlookup : ∀ id, Follows Rel (lookup id)) (entities : List (String × String × F))
    (resultMap : List (ContextResult F)) :
  Follows Rel (ContextResult.mergeVectors lookup resultMap entities)
  := by
  induction entities generalizing resultMap with
  | nil => apply Program.Uses.ret
  | cons e entities ih =>
      obtain ⟨entityType, entityId, similarity⟩ := e
      rw [ContextResult.mergeVectors]
      split
      · apply ih
      · split
        · apply ih
        · apply (hlookup entityId).bind
          intro found
          split
          · apply ih
          · apply ih

theorem follows_hybridSearch (project query : String) (vector : Option (List F)) (budget : ℕ)
    (category : Option String) :
  Follows Rel (HybridSearch.getContext sorting orders codec project query vector budget category)
  := by
  apply (follows_searchMemoriesKeyword codec _ _ _ _ _).bind
  intro keywordResults
  cases vector with
  | none => apply Program.Uses.ret
  | some queryVec =>
      apply Follows.bind follows_query
      intro vectorResults
      apply Follows.bind
      · apply follows_mergeVectors
        intro id
        apply follows_query.result
      · intro resultMap
        apply Program.Uses.ret

theorem follows_read (tool : ProjectRead) (args : Json) :
  Follows Rel (tool.handler sorting orders codec args)
  := by
  have hfollows := compositional_uses (MemoryOp.Follows Rel)
  cases tool with
  | listMemories =>
      apply hfollows.requiredStr_bind
      intro project
      apply hfollows.answer follows_query
  | searchMemory =>
      apply hfollows.requiredStr_bind
      intro project
      apply hfollows.requiredStr_bind
      intro query
      apply hfollows.answer (follows_hybridSearch sorting orders codec _ _ _ _ _)
  | getContext =>
      apply hfollows.requiredStr_bind
      intro project
      apply hfollows.requiredStr_bind
      intro query
      apply hfollows.answer (follows_hybridSearch sorting orders codec _ _ _ _ _)
  | getProjectSummary =>
      apply hfollows.requiredStr_bind
      intro project
      apply Follows.bind (hfollows.mapError follows_query _)
      intro categories
      apply Follows.bind (hfollows.mapError follows_query _)
      intro recent
      apply Follows.bind (hfollows.mapError (follows_sessionStats project) _)
      intro stats
      apply hfollows.answer follows_query

theorem follows_getMemory (scan : Scan MemoryRow) (args : Json) :
  Follows Rel (MemoryTools.getMemory scan codec args)
  := by
  have hfollows := compositional_uses (MemoryOp.Follows Rel)
  apply hfollows.requiredStr_bind
  intro memoryId
  apply Follows.bind (hfollows.mapError follows_query _)
  rintro (_ | mem)
  · apply Program.Uses.ret
  · apply Program.Uses.ret

end Reads

end Tools

end MemoryM

/-! ### Calls -/

section Calls

variable {F : Type} [SingleFloat F]

/-- The call deletes a memory. -/
def WritingCall.Deletes : WritingCall F → Prop
  | .tool .deleteMemory _ => True
  | .deleteMemory _ => True
  | _ => False

variable (h : MemoryTables.Followed Rel)

include h

/-- What each step of a call does to the tables follows the relation. -/
theorem WritingCall.follows (codec : TagCodec) {call : WritingCall F}
    (hdelete : call.Deletes → MemoryTables.AllowsDeletion Rel) :
  MemoryM.Follows Rel (call.program codec)
  := by
  cases call with
  | tool write args =>
      have hwrite : write = .deleteMemory → MemoryTables.AllowsDeletion Rel := by
        rintro rfl
        apply hdelete trivial
      apply (MemoryM.follows_write h codec hwrite args).discard
  | saveMemory project category content tags =>
      apply (MemoryM.follows_saveMemory h codec project category content tags).discard
  | updateMemory id content tags => apply MemoryM.follows_updateMemory h codec id content tags
  | deleteMemory id => apply MemoryM.follows_deleteMemory h (hdelete trivial) id
  | startSession project agentType model =>
      apply (MemoryM.follows_startSession h project agentType model).discard
  | endSession sessionId summary => apply MemoryM.follows_endSession h sessionId summary
  | updateCounts arithmetic currentTimestamp sessionId tokens messages tools =>
      apply MemoryM.follows_updateCounts h
  | saveObservation sessionId observationType content context =>
      apply (MemoryM.follows_saveObservation h sessionId observationType content context).discard
  | saveObservationWithProject sessionId project observationType content context =>
      apply (MemoryM.follows_saveObservationWithProject h sessionId project observationType content
        context).discard
  | storeEmbedding embedding => apply MemoryM.follows_storeEmbedding h embedding
  | deleteEmbedding entityType entityId => apply MemoryM.follows_deleteEmbedding h

/-- What each step of a tool does to the tables follows the relation. -/
theorem MemoryCall.follows (sorting : SortBy) (orders : Orders F) (codec : TagCodec)
    {call : MemoryCall}
    (hdelete : ∀ args, call = .write .deleteMemory args → MemoryTables.AllowsDeletion Rel) :
  (call.program sorting orders codec).Uses (MemoryOp.Follows Rel)
  := by
  cases call with
  | write tool args =>
      apply MemoryM.follows_write h codec
      rintro rfl
      apply hdelete args rfl
  | read tool args => apply MemoryM.follows_read sorting orders codec
  | getMemory args => apply MemoryM.follows_getMemory codec

end Calls

end Followed

end OrchestraRag
