import Mathlib.Logic.Relation
import OrchestraRag.Library.Ownership
import OrchestraRag.Memory.Runs

/-!
# Projects of memories and sessions

An embedding carries the project of the memory it is about, and an observation the one of its
session (`MemoryTables.Owned`).  Each tool that writes keeps this, hence it holds in every
state that a run of them reaches without failing statements (`Reached.owned`).
-/

namespace OrchestraRag

open Sql

namespace MemoryTables

/-! ### Owners and links -/

/-- The memories, with their projects. -/
def memoryOwners (tables : MemoryTables) : List (String × String) :=
  tables.memories.map (fun row => (row.id, row.project))

/-- The memories that embeddings are about, with the projects of the embeddings. -/
def embeddingLinks (tables : MemoryTables) : List (String × String) :=
  tables.embeddings.map (fun row => (row.entityId, row.project))

/-- The sessions, with their projects. -/
def sessionOwners (tables : MemoryTables) : List (String × String) :=
  tables.sessions.map (fun row => (row.id, row.project))

/-- The sessions of the observations, with the projects of the observations. -/
def observationLinks (tables : MemoryTables) : List (String × String) :=
  tables.observations.map (fun row => (row.sessionId, row.project))

/-- An embedding has the project of its memory and an observation the one of its session. -/
structure Owned (issued : List String) (tables : MemoryTables) : Prop where
  memories : Linked issued tables.memoryOwners tables.embeddingLinks
  sessions : Linked issued tables.sessionOwners tables.observationLinks
  observations : (tables.observations.map ObservationRow.id).Nodup

namespace Owned

variable {issued : List String} {tables tables' : MemoryTables} {id : String}

theorem empty :
  MemoryTables.empty.Owned issued
  := ⟨Linked.nil, Linked.nil, List.nodup_nil⟩

theorem issue (h : tables.Owned issued) (id : String) :
  tables.Owned (id :: issued)
  := by
  have hsub : issued ⊆ id :: issued := fun _ => List.mem_cons_of_mem _
  exact ⟨h.memories.issue hsub, h.sessions.issue hsub, h.observations⟩

theorem insertMemory {row : MemoryRow} (h : tables.Owned issued) (hnew : row.id ∉ issued)
    (hinsert : tables.insertMemory row = .ok ((), tables')) :
  tables'.Owned (row.id :: issued) ∧ (row.id, row.project) ∈ tables'.memoryOwners
  := by
  rw [MemoryTables.insertMemory] at hinsert
  split at hinsert
  · cases hinsert
  · cases hinsert
    have howners : memoryOwners { tables with memories := tables.memories ++ [row] }
        = tables.memoryOwners ++ [(row.id, row.project)] := List.map_append
    rw [howners]
    constructor
    · constructor
      · rw [howners]
        apply h.memories.add_entity hnew
      · apply (h.issue row.id).sessions
      · apply h.observations
    · apply List.mem_append_right _ List.mem_cons_self

/-- Changing memories but not their ids and projects keeps what is owned. -/
theorem updateMemories {update : MemoryRow → MemoryRow} (h : tables.Owned issued)
    (hupdate : ∀ row, (update row).id = row.id ∧ (update row).project = row.project) :
  { tables with memories := tables.memories.map update }.Owned issued
  := by
  have howners : memoryOwners { tables with memories := tables.memories.map update }
      = tables.memoryOwners := by
    rw [memoryOwners, memoryOwners, List.map_map]
    apply List.map_congr_left
    intro row _
    rw [Function.comp_apply, (hupdate row).1, (hupdate row).2]
  constructor
  · rw [howners]
    apply h.memories
  · apply h.sessions
  · apply h.observations

theorem filterMemories (h : tables.Owned issued) (p : MemoryRow → Bool) :
  { tables with memories := tables.memories.filter p }.Owned issued
  := by
  constructor
  · apply h.memories.sublist (List.filter_sublist.map _) (List.Sublist.refl _)
  · apply h.sessions
  · apply h.observations

theorem filterEmbeddings (h : tables.Owned issued) (p : EmbeddingRow → Bool) :
  { tables with embeddings := tables.embeddings.filter p }.Owned issued
  := by
  constructor
  · apply h.memories.sublist (List.Sublist.refl _) (List.filter_sublist.map _)
  · apply h.sessions
  · apply h.observations

theorem replaceEmbedding {row : EmbeddingRow} (h : tables.Owned issued)
    (hmemory : (row.entityId, row.project) ∈ tables.memoryOwners) :
  (tables.replaceEmbedding row).Owned issued
  := by
  constructor
  · have hlinks : (tables.replaceEmbedding row).embeddingLinks
        = embeddingLinks { tables with embeddings := tables.embeddings.filter _ }
          ++ [(row.entityId, row.project)] := List.map_append
    rw [hlinks]
    apply (h.filterEmbeddings _).memories.add_link hmemory
  · apply h.sessions
  · apply h.observations

theorem insertSession {row : SessionRow} (h : tables.Owned issued) (hnew : row.id ∉ issued)
    (hinsert : tables.insertSession row = .ok ((), tables')) :
  tables'.Owned (row.id :: issued)
  := by
  rw [MemoryTables.insertSession] at hinsert
  split at hinsert
  · cases hinsert
  · cases hinsert
    have howners : sessionOwners { tables with sessions := tables.sessions ++ [row] }
        = tables.sessionOwners ++ [(row.id, row.project)] := List.map_append
    constructor
    · apply (h.issue row.id).memories
    · rw [howners]
      apply h.sessions.add_entity hnew
    · apply h.observations

theorem endSession (h : tables.Owned issued) (now sessionId : String) :
  (tables.endSession now sessionId).Owned issued
  := by
  have howners : (tables.endSession now sessionId).sessionOwners = tables.sessionOwners := by
    rw [sessionOwners, sessionOwners, MemoryTables.endSession, List.map_map]
    apply List.map_congr_left
    intro row _
    rw [Function.comp_apply]
    split
    · rfl
    · rfl
  constructor
  · apply h.memories
  · rw [howners]
    apply h.sessions
  · apply h.observations

/-- An observation is saved with the project of its session. -/
theorem insertObservation {row : ObservationRow} (h : tables.Owned issued)
    (hsession : tables.sessionProject row.sessionId = .ok row.project)
    (hinsert : tables.insertObservation row = .ok ((), tables')) :
  tables'.Owned issued
  := by
  rw [MemoryTables.insertObservation] at hinsert
  split at hinsert
  · cases hinsert
  · rename_i hid
    split at hinsert
    · cases hinsert
    · cases hinsert
      have hlinks : observationLinks { tables with observations := tables.observations ++ [row] }
          = tables.observationLinks ++ [(row.sessionId, row.project)] := List.map_append
      constructor
      · apply h.memories
      · rw [hlinks]
        apply h.sessions.add_link
        rw [sessionProject] at hsession
        cases hfind : tables.sessions.find? (fun session => session.id = row.sessionId) with
        | none =>
            rw [hfind] at hsession
            cases hsession
        | some session =>
            rw [hfind] at hsession
            have hproject : session.project = row.project := Except.ok.inj hsession
            have hsessionId := List.find?_some hfind
            rw [decide_eq_true_eq] at hsessionId
            rw [← hproject, ← hsessionId]
            apply List.mem_map_of_mem (List.mem_of_find?_eq_some hfind)
      · rw [List.map_append, List.map_singleton, ← List.concat_eq_append]
        apply h.observations.concat hid

theorem insertSummary {row : SummaryRow} (h : tables.Owned issued)
    (hinsert : tables.insertSummary row = .ok ((), tables')) :
  tables'.Owned issued
  := by
  rw [MemoryTables.insertSummary] at hinsert
  split at hinsert
  · cases hinsert
  · split at hinsert
    · cases hinsert
    · cases hinsert
      exact ⟨h.memories, h.sessions, h.observations⟩

end Owned

end MemoryTables

/-! ### Programs that keep what is owned -/

/-- No statement fails, and `P` holds of the ids issued and the tables. -/
structure MemoryState.Meets (s : MemoryState) (P : List String → MemoryTables → Prop) : Prop where
  reliable : s.db.Reliable
  tables : P s.issued s.db.tables

namespace MemoryM

open MemoryTables

variable {α β : Type} {P : List String → MemoryTables → Prop}
  {Q : α → List String → MemoryTables → Prop}

/-- Where `P` holds the program returns a value `a` such that `Q a` holds, or it fails and the
tables are `Owned`. -/
abbrev Keeps (P : List String → MemoryTables → Prop) (program : MemoryM α)
    (Q : α → List String → MemoryTables → Prop) : Prop :=
  Program.Triple MemoryOp.Step (·.Meets P) program (fun a s => s.Meets (Q a)) (·.Meets Owned)

theorem keeps_pure {a : α} (h : ∀ issued tables, P issued tables → Q a issued tables) :
  Keeps P (pure a) Q
  := by
  apply Program.triple_pure
  intro s hs
  exact ⟨hs.reliable, h _ _ hs.tables⟩

theorem keeps_uuid {Q : String → List String → MemoryTables → Prop}
    (h : ∀ issued tables id, P issued tables → id ∉ issued → Q id (id :: issued) tables) :
  Keeps P uuid Q
  := by
  apply Program.triple_lift
  rintro s id s' hs ⟨hnew, rfl⟩
  exact ⟨hs.reliable, h _ _ id hs.tables hnew⟩

theorem keeps_now :
  Keeps P now (fun _ => P)
  := by
  apply Program.triple_lift
  rintro s a s' hs rfl
  apply hs

theorem keeps_withConnection {c : Connection MemoryTables α}
    (h : ∀ issued, Connection.Triple (P issued) c (fun a => Q a issued) (Owned issued)) :
  Keeps P (withConnection c) Q
  := by
  have hcall : Keeps P (ExceptT.mk (Program.call (MemoryOp.connection c))) Q := by
    intro s x s' hs hexec
    obtain ⟨hon, hissued⟩ := Program.exec_call.mp hexec
    obtain ⟨hreliable, hok, herror⟩ := h s.issued s.db x s'.db hs.reliable hs.tables hon
    rw [← hissued] at hok herror
    constructor
    · intro a ha
      exact ⟨hreliable, hok a ha⟩
    · intro e he
      exact ⟨hreliable, herror e he⟩
  apply hcall.mapError

/-- The last id that was issued is of no row. -/
def Fresh (id : String) (issued : List String) (tables : MemoryTables) : Prop :=
  ∃ before, issued = id :: before ∧ id ∉ before ∧ tables.Owned before

theorem Fresh.owned {id : String} {issued : List String} {tables : MemoryTables}
    (h : Fresh id issued tables) :
  tables.Owned issued
  := by
  obtain ⟨before, rfl, -, htables⟩ := h
  apply htables.issue

theorem keeps_fresh :
  Keeps Owned uuid Fresh
  := by
  apply keeps_uuid
  intro issued tables id h hnew
  exact ⟨issued, rfl, hnew, h⟩

/-! ### The calls -/

/-- A memory is there, with its project. -/
def HasMemory (project id : String) (issued : List String) (tables : MemoryTables) : Prop :=
  tables.Owned issued ∧ (id, project) ∈ tables.memoryOwners

/-- A saved memory has the project it was saved with. -/
theorem keeps_saveMemory (codec : TagCodec) (project category content : String)
    (tags : List String) :
  Keeps Owned (MemoryStorage.saveMemory codec project category content tags) (HasMemory project)
  := by
  apply keeps_fresh.bind
  intro id
  apply keeps_now.bind
  intro now
  have hinsert : Keeps (Fresh id) (withConnection (Connection.statement (insertMemory
      { id, project, category, content, tags := some (codec.toText tags), createdAt := now,
        updatedAt := now }))) (fun _ => HasMemory project id) := by
    apply keeps_withConnection
    intro issued
    apply Connection.triple_statement
    · rintro tables _ tables' ⟨before, rfl, hnew, htables⟩ hinsert
      apply htables.insertMemory hnew hinsert
    · intro tables h
      apply h.owned
  apply hinsert.bind
  intro _
  apply keeps_pure
  intro issued tables h
  apply h

/-- The embedding of a memory carries the project of the memory. -/
theorem keeps_storeEmbedding {F : Type} [SingleFloat F] (memoryId project : String)
    (vector : List F) :
  Keeps (HasMemory project memoryId) (MemoryTools.storeEmbedding memoryId project vector)
    (fun _ => Owned)
  := by
  rw [MemoryTools.storeEmbedding]
  split
  · apply keeps_pure
    intro issued tables h
    apply h.1
  · have huuid : Keeps (HasMemory project memoryId) uuid (fun _ => HasMemory project memoryId) := by
      apply keeps_uuid
      intro issued tables id h _
      exact ⟨h.1.issue id, h.2⟩
    apply huuid.bind
    intro id
    apply Program.Triple.mapError
    apply keeps_withConnection
    intro issued
    apply Connection.triple_execute
    intro tables h
    apply h.1.replaceEmbedding h.2

/-- A statement that keeps what is owned. -/
theorem keeps_execute {f : MemoryTables → MemoryTables}
    (h : ∀ issued tables, Owned issued tables → (f tables).Owned issued) :
  Keeps Owned (withConnection (Connection.execute f)) (fun _ => Owned)
  := by
  apply keeps_withConnection
  intro issued
  apply Connection.triple_execute
  apply h

theorem keeps_updateMemory (codec : TagCodec) (id content : String) (tags : List String) :
  Keeps Owned (MemoryStorage.updateMemory codec id content tags) (fun _ => Owned)
  := by
  apply keeps_now.bind
  intro now
  apply keeps_execute
  intro issued tables h
  apply h.updateMemories
  intro row
  split
  · exact ⟨rfl, rfl⟩
  · exact ⟨rfl, rfl⟩

theorem keeps_startSession (project agentType model : String) :
  Keeps Owned (SessionManager.startSession project agentType model) (fun _ => Owned)
  := by
  apply keeps_fresh.bind
  intro id
  apply keeps_now.bind
  intro now
  have hinsert : Keeps (Fresh id) (withConnection (Connection.statement (insertSession
      { id, project, startedAt := now, endedAt := none, agentType, model, tokenCount := 0,
        messageCount := 0, toolCount := 0, updatedAt := none }))) (fun _ => Owned) := by
    apply keeps_withConnection
    intro issued
    apply Connection.triple_statement
    · rintro tables _ tables' ⟨before, rfl, hnew, htables⟩ hinsert
      apply htables.insertSession hnew hinsert
    · intro tables h
      apply h.owned
  apply hinsert.bind
  intro _
  apply keeps_pure
  intro issued tables h
  apply h

/-- An observation is saved with the project of its session, or not at all. -/
theorem keeps_saveObservation (sessionId observationType content : String)
    (context : Option String) :
  Keeps Owned (ObservationStorage.saveObservation sessionId observationType content context)
    (fun _ => Owned)
  := by
  apply keeps_fresh.bind
  intro id
  apply keeps_now.bind
  intro now
  have hinsert : Keeps (Fresh id) (withConnection (do
      let project ← Connection.select (sessionProject sessionId)
      Connection.statement (insertObservation
        { id, sessionId, project, observationType, content, context := some (context.getD ""),
          timestamp := now }))) (fun _ => Owned) := by
    apply keeps_withConnection
    intro issued
    apply (Connection.triple_select (fun tables h => Fresh.owned h)).bind
    intro project
    apply Connection.triple_statement
    · rintro tables _ tables' ⟨hfresh, hproject⟩ hinsert
      apply hfresh.owned.insertObservation hproject hinsert
    · intro tables h
      apply h.1.owned
  apply hinsert.bind
  intro _
  apply keeps_pure
  intro issued tables h
  apply h

theorem keeps_endSession (sessionId summary : String) :
  Keeps Owned (SessionManager.endSession sessionId summary) (fun _ => Owned)
  := by
  apply keeps_now.bind
  intro now
  split
  · apply keeps_execute
    intro issued tables h
    apply h.endSession
  · apply keeps_fresh.bind
    intro summaryId
    apply keeps_withConnection
    intro issued
    have hend : Connection.Triple (Fresh summaryId issued)
        (Connection.execute (endSession now sessionId)) (fun _ => Owned issued) (Owned issued) := by
      apply Connection.triple_execute
      intro tables h
      apply h.owned.endSession
    apply hend.bind
    intro _
    apply (Connection.triple_select (fun tables h => h)).bind
    intro project
    apply Connection.triple_statement
    · intro tables _ tables' h hinsert
      apply h.1.insertSummary hinsert
    · intro tables h
      apply h.1

/-! ### The tools -/

/-- A program made of programs that keep what is owned keeps it. -/
theorem compositional_keeps :
  Compositional (fun _ program => Keeps Owned program (fun _ => Owned))
  := by
  constructor
  · intro α x s r s' hs hexec
    obtain ⟨-, rfl⟩ := Program.exec_ret.mp hexec
    constructor
    · intro _ _
      apply hs
    · intro _ _
      apply hs
  · intro α β program f h hf
    apply h.bind hf
  · intro α program h g
    apply h.mapError

theorem keeps_saveMemoryTool (F : Type) [SingleFloat F] (codec : TagCodec) (args : Json) :
  Keeps Owned (MemoryTools.saveMemory F codec args) (fun _ => Owned)
  := by
  apply compositional_keeps.requiredStr_bind
  intro project
  apply compositional_keeps.requiredStr_bind
  intro category
  apply compositional_keeps.requiredStr_bind
  intro content
  apply ((keeps_saveMemory codec project category content (tagsOf args)).mapError _).bind
  intro memoryId
  split
  · apply (keeps_storeEmbedding memoryId project _).bind
    intro _
    apply compositional_keeps.result (.ok _)
  · apply keeps_pure
    intro issued tables h
    apply h.1

theorem keeps_deleteMemory (id : String) :
  Keeps Owned (MemoryStorage.deleteMemory id) (fun _ => Owned)
  := keeps_execute (fun _ _ h => h.filterMemories _)

theorem keeps_deleteEmbedding (entityType entityId : String) :
  Keeps Owned (EmbeddingStore.delete entityType entityId) (fun _ => Owned)
  := keeps_execute (fun _ _ h => h.filterEmbeddings _)

/-- Every tool that writes keeps what is owned. -/
theorem keeps_handler (F : Type) [SingleFloat F] (codec : TagCodec) (tool : MemoryWrite)
    (args : Json) :
  Keeps Owned (tool.handler F codec args) (fun _ => Owned)
  := by
  cases tool with
  | saveMemory => apply keeps_saveMemoryTool F codec args
  | updateMemory => apply compositional_keeps.updateMemory (keeps_updateMemory codec)
  | deleteMemory => apply compositional_keeps.deleteMemory keeps_deleteMemory keeps_deleteEmbedding
  | startSession => apply compositional_keeps.startSession keeps_startSession
  | saveObservation => apply compositional_keeps.saveObservation keeps_saveObservation
  | endSession => apply compositional_keeps.endSession keeps_endSession

end MemoryM

/-! ### Runs -/

/-- A call of a tool that writes. -/
def MemoryStep (F : Type) [SingleFloat F] (codec : TagCodec) (s s' : MemoryState) : Prop :=
  ∃ (tool : MemoryWrite) (args : Json) (r : Except String Json),
    (tool.handler F codec args).Runs s r s'

/-- The database of a new file, on which no statement fails. -/
def MemoryState.new : MemoryState :=
  ⟨⟨MemoryTables.empty, []⟩, []⟩

/-- Calls of the tools that write may lead from a new file to the state. -/
def Reached (F : Type) [SingleFloat F] (codec : TagCodec) (s : MemoryState) : Prop :=
  Relation.ReflTransGen (MemoryStep F codec) MemoryState.new s

theorem Reached.owned {F : Type} [SingleFloat F] {codec : TagCodec} {s : MemoryState}
    (h : Reached F codec s) :
  s.Meets MemoryTables.Owned
  := by
  induction h with
  | refl => exact ⟨rfl, MemoryTables.Owned.empty⟩
  | tail _ hstep ih =>
      obtain ⟨tool, args, r, hruns⟩ := hstep
      obtain ⟨hok, herror⟩ := MemoryM.keeps_handler F codec tool args _ r _ ih hruns
      rcases r with e | answer
      · apply herror e rfl
      · apply hok answer rfl

end OrchestraRag
