import Mathlib.Data.List.Forall2
import OrchestraRag.Memory.Chronology
import OrchestraRag.Memory.Linearizable

/-!
# What stays recorded

Whichever calls run, however they interleave and whichever of their statements fail, observations
and summaries are only added, after the ones that are there; a session stays what it was when it
started, and stays ended; a memory stays of its project, its category and the time of its creation
(`retained_of_run`).  A memory that was deleted is never found again (`never_found_again`).
-/

namespace OrchestraRag

open Sql

/-! ### The tables -/

/-- What stays of a memory until it is deleted. -/
def MemoryRow.origin (row : MemoryRow) : String × String × String × String :=
  (row.id, row.project, row.category, row.createdAt)

/-- What stays of a session. -/
def SessionRow.origin (row : SessionRow) : String × String × String × String × String :=
  (row.id, row.project, row.startedAt, row.agentType, row.model)

/-- A session goes on, or ends. -/
structure SessionRow.Becomes (row row' : SessionRow) : Prop where
  origin : row'.origin = row.origin
  ended : row.endedAt.isSome → row'.endedAt.isSome

namespace MemoryTables

/-- What `tables` record is retained in `tables'`, where memories may be missing and those with ids
that are not of `ids` are new. -/
structure Retained (ids : List String) (tables tables' : MemoryTables) : Prop where
  observations : tables.observations <+: tables'.observations
  summaries : tables.summaries <+: tables'.summaries
  sessions : ∃ later, List.Forall₂ SessionRow.Becomes tables.sessions later
    ∧ later <+: tables'.sessions
  memories : ((tables'.memories.filter (fun row => row.id ∈ ids)).map MemoryRow.origin).Sublist
    (tables.memories.map MemoryRow.origin)

namespace Retained

variable {ids : List String} {tables tables' tables'' : MemoryTables}

theorem refl :
  Retained ids tables tables
  := by
  constructor
  · apply List.prefix_rfl
  · apply List.prefix_rfl
  · use tables.sessions
    constructor
    · rw [List.forall₂_same]
      intro session _
      exact ⟨rfl, id⟩
    · apply List.prefix_rfl
  · apply List.Sublist.map
    apply List.filter_sublist

/-- A memory that was deleted does not come back. -/
theorem notMem_memories (h : Retained ids tables tables') {id : String} (hid : id ∈ ids)
    (hgone : id ∉ tables.memories.map MemoryRow.id) :
  id ∉ tables'.memories.map MemoryRow.id
  := by
  intro hback
  obtain ⟨row, hrow, rfl⟩ := List.mem_map.mp hback
  have hkept : row ∈ tables'.memories.filter (fun row => row.id ∈ ids) :=
    List.mem_filter.mpr ⟨hrow, decide_eq_true hid⟩
  obtain ⟨old, hold, heq⟩ := List.mem_map.mp (h.memories.subset (List.mem_map_of_mem hkept))
  apply hgone
  apply List.mem_map.mpr
  use old, hold
  apply congrArg Prod.fst heq

/-- Memories that are changed stay where they came from. -/
theorem origins_map {f : MemoryRow → MemoryRow} (hf : ∀ row, (f row).origin = row.origin)
    (rows : List MemoryRow) :
  ((rows.map f).filter (fun row => row.id ∈ ids)).map MemoryRow.origin
    = (rows.filter (fun row => row.id ∈ ids)).map MemoryRow.origin
  := by
  have hid : ∀ row, (f row).id = row.id := fun row => congrArg Prod.fst (hf row)
  have horigin : MemoryRow.origin ∘ f = MemoryRow.origin := funext hf
  rw [List.filter_map, List.map_map, horigin]
  simp only [Function.comp_def, hid]

section Changes

variable (h : Retained ids tables tables')

include h

/-- A memory is new under a new id. -/
theorem insertMemory {row : MemoryRow} (hnew : row.id ∉ ids)
    (hinsert : tables'.insertMemory row = .ok ((), tables'')) :
  Retained ids tables tables''
  := by
  rw [of_insertMemory hinsert]
  constructor
  · apply h.observations
  · apply h.summaries
  · apply h.sessions
  · rw [List.filter_append, List.filter_singleton, decide_eq_false hnew]
    simp only [cond_false, List.append_nil]
    apply h.memories

theorem insertSession {row : SessionRow}
    (hinsert : tables'.insertSession row = .ok ((), tables'')) :
  Retained ids tables tables''
  := by
  rw [MemoryTables.insertSession] at hinsert
  split at hinsert
  · cases hinsert
  · cases hinsert
    constructor
    · apply h.observations
    · apply h.summaries
    · obtain ⟨later, hbecomes, hprefix⟩ := h.sessions
      exact ⟨later, hbecomes, hprefix.trans (List.prefix_append _ _)⟩
    · apply h.memories

theorem insertObservation {row : ObservationRow}
    (hinsert : tables'.insertObservation row = .ok ((), tables'')) :
  Retained ids tables tables''
  := by
  rw [MemoryTables.insertObservation] at hinsert
  split at hinsert
  · cases hinsert
  · split at hinsert
    · cases hinsert
    · cases hinsert
      exact ⟨h.observations.trans (List.prefix_append _ _), h.summaries, h.sessions, h.memories⟩

theorem insertSummary {row : SummaryRow}
    (hinsert : tables'.insertSummary row = .ok ((), tables'')) :
  Retained ids tables tables''
  := by
  rw [MemoryTables.insertSummary] at hinsert
  split at hinsert
  · cases hinsert
  · split at hinsert
    · cases hinsert
    · cases hinsert
      exact ⟨h.observations, h.summaries.trans (List.prefix_append _ _), h.sessions, h.memories⟩

/-- A memory that is updated stays where it came from. -/
theorem updateMemory (codec : TagCodec) (now id content : String) (tags : List String) :
  Retained ids tables (tables'.updateMemory codec now id content tags)
  := by
  constructor
  · apply h.observations
  · apply h.summaries
  · apply h.sessions
  · have hsame : ((tables'.updateMemory codec now id content tags).memories.filter
          (fun row => row.id ∈ ids)).map MemoryRow.origin
        = (tables'.memories.filter (fun row => row.id ∈ ids)).map MemoryRow.origin := by
      apply origins_map
      intro row
      split
      · rfl
      · rfl
    rw [hsame]
    apply h.memories

theorem deleteMemory (id : String) :
  Retained ids tables (tables'.deleteMemory id)
  := by
  constructor
  · apply h.observations
  · apply h.summaries
  · apply h.sessions
  · apply List.Sublist.trans _ h.memories
    apply List.Sublist.map
    apply List.Sublist.filter
    apply List.filter_sublist

/-- Sessions that are changed go on, or end. -/
theorem mapSessions {f : SessionRow → SessionRow}
    (hf : ∀ row : SessionRow, row.Becomes (f row)) :
  Retained ids tables { tables' with sessions := tables'.sessions.map f }
  := by
  constructor
  · apply h.observations
  · apply h.summaries
  · obtain ⟨later, hbecomes, hprefix⟩ := h.sessions
    use later.map f
    constructor
    · rw [List.forall₂_map_right_iff]
      apply hbecomes.imp
      intro row row' hrow
      exact ⟨(hf row').origin.trans hrow.origin, fun hended => (hf row').ended (hrow.ended hended)⟩
    · apply hprefix.map
  · apply h.memories

theorem endSession (now sessionId : String) :
  Retained ids tables (tables'.endSession now sessionId)
  := by
  apply h.mapSessions
  intro row
  split
  · exact ⟨rfl, fun _ => rfl⟩
  · exact ⟨rfl, id⟩

theorem updateCounts (arithmetic : RealArithmetic) (currentTimestamp sessionId : String)
    (tokens messages tools : Int64) :
  Retained ids tables
    (tables'.updateCounts arithmetic currentTimestamp sessionId tokens messages tools)
  := by
  apply h.mapSessions
  intro row
  split
  · exact ⟨rfl, id⟩
  · exact ⟨rfl, id⟩

theorem setEmbeddings (embeddings : List EmbeddingRow) :
  Retained ids tables { tables' with embeddings := embeddings }
  := ⟨h.observations, h.summaries, h.sessions, h.memories⟩

end Changes

end Retained

end MemoryTables

/-! ### Programs -/

/-- The ids of `ids` were issued, and what `tables` record is retained. -/
structure MemoryState.Retains (ids : List String) (tables : MemoryTables) (s : MemoryState) :
    Prop where
  issued : ids ⊆ s.issued
  retained : tables.Retained ids s.db.tables

theorem MemoryState.retains_self (s : MemoryState) :
  s.Retains s.issued s.db.tables
  := ⟨List.Subset.refl _, MemoryTables.Retained.refl⟩

namespace MemoryM

open MemoryTables

variable {α β : Type} (ids : List String) (tables : MemoryTables)

/-- Every step of the program retains what is recorded, and a value it returns satisfies `Q`. -/
abbrev Retaining (Q : α → Prop) (program : MemoryM α) : Prop :=
  Program.Maintains MemoryOp.Step (MemoryState.Retains ids tables)
    (fun r => ∀ a, r = .ok a → Q a) program.run

/-- Every step of the program retains what is recorded. -/
abbrev RetainsAll (program : MemoryM α) : Prop :=
  Retaining ids tables (fun _ => True) program

variable {ids tables} {Q : α → Prop} {Q' : β → Prop} {program : MemoryM α} {f : α → MemoryM β}

theorem retainsAll_result (x : Except String α) :
  RetainsAll ids tables (ExceptT.mk (pure x))
  := Program.Maintains.ret (fun _ _ => trivial)

theorem retaining_pure {a : α} (ha : Q a) :
  Retaining ids tables Q (pure a)
  := by
  apply Program.Maintains.ret
  rintro b ⟨⟩
  apply ha

theorem Retaining.bind (h : Retaining ids tables Q program)
    (hf : ∀ a, Q a → Retaining ids tables Q' (f a)) :
  Retaining ids tables Q' (program >>= f)
  := Program.maintains_fallible_bind h hf

theorem RetainsAll.bind (h : RetainsAll ids tables program)
    (hf : ∀ a, RetainsAll ids tables (f a)) :
  RetainsAll ids tables (program >>= f)
  := Retaining.bind h (fun a _ => hf a)

theorem Retaining.mapError (h : Retaining ids tables Q program) (g : String → String) :
  Retaining ids tables Q (ExceptT.mk ((fun x : Except String α => x.mapError g) <$> program.run))
  := by
  apply Program.Maintains.map h
  rintro (e | a) ha b hb
  · cases hb
  · apply ha b hb

theorem RetainsAll.discard (h : RetainsAll ids tables program) :
  RetainsAll ids tables (Functor.discard program)
  := by
  apply RetainsAll.bind h
  intro _
  apply retaining_pure trivial

theorem RetainsAll.fallible (h : RetainsAll ids tables program) :
  RetainsAll ids tables program.result
  := by
  apply Program.Maintains.map h
  intro _ _ _ _
  trivial

/-- An id that is issued is new. -/
theorem retaining_uuid :
  Retaining ids tables (· ∉ ids) uuid
  := by
  apply @Program.maintains_lift _ _ _ String MemoryAns _ MemoryOp.uuid (· ∉ ids)
  rintro s id s' hs ⟨hnew, rfl⟩
  exact ⟨⟨List.subset_cons_of_subset id hs.issued, hs.retained⟩, fun hid => hnew (hs.issued hid)⟩

theorem retainsAll_uuid :
  RetainsAll ids tables uuid
  := by
  apply @Program.maintains_lift _ _ _ String MemoryAns _ MemoryOp.uuid (fun _ => True)
  rintro s id s' hs ⟨-, rfl⟩
  exact ⟨⟨List.subset_cons_of_subset id hs.issued, hs.retained⟩, trivial⟩

theorem retainsAll_now :
  RetainsAll ids tables now
  := by
  apply @Program.maintains_lift _ _ _ String MemoryAns _ MemoryOp.now (fun _ => True)
  rintro s now s' hs rfl
  exact ⟨hs, trivial⟩

theorem retaining_withConnection {c : Connection MemoryTables α}
    (h : Connection.Maintains (Retained ids tables) c)
    (hQ : ∀ db a, tables.Retained ids db.tables → (c.on db).1 = .ok a → Q a) :
  Retaining ids tables Q (withConnection c)
  := by
  have hcall : Program.Maintains MemoryOp.Step (MemoryState.Retains ids tables)
      (fun x : Except String α => ∀ a, x = .ok a → Q a) (Program.call (MemoryOp.connection c)) := by
    apply @Program.maintains_call _ _ _ MemoryAns _ (.connection c)
      (fun x : Except String α => ∀ a, x = .ok a → Q a)
    rintro s x s' hs ⟨hon, hissued⟩
    have htables := (h s.db).1 hs.retained
    rw [hon] at htables
    refine ⟨⟨?_, htables⟩, ?_⟩
    · rw [hissued]
      apply hs.issued
    · rintro a rfl
      apply hQ s.db a hs.retained
      rw [hon]
  apply Retaining.mapError hcall

theorem retainsAll_withConnection {c : Connection MemoryTables α}
    (h : Connection.Maintains (Retained ids tables) c) :
  RetainsAll ids tables (withConnection c)
  := retaining_withConnection h (fun _ _ _ _ => trivial)

theorem retainsAll_execute {change : MemoryTables → MemoryTables}
    (h : ∀ tables', tables.Retained ids tables' → tables.Retained ids (change tables')) :
  RetainsAll ids tables (withConnection (Connection.execute change))
  := retainsAll_withConnection (Connection.maintains_execute h)

/-- A query answers from tables in which what is recorded is retained. -/
theorem retaining_query {find : MemoryTables → α} :
  Retaining ids tables (fun a => ∃ tables', tables.Retained ids tables' ∧ a = find tables')
    (withConnection (Connection.query find))
  := by
  apply retaining_withConnection Connection.maintains_query
  intro db a hretained hon
  use db.tables, hretained
  have hanswer : (Connection.query find).on db = (.ok a, ((Connection.query find).on db).2) := by
    rw [← hon]
  apply (Connection.query_on_eq_ok hanswer).1

/-- A row is inserted under a new id. -/
theorem retainsAll_insert {c : String → String → Connection MemoryTables Unit}
    (h : ∀ id now, id ∉ ids → Connection.Maintains (Retained ids tables) (c id now)) :
  RetainsAll ids tables (do
    let id ← uuid
    let now ← now
    withConnection (c id now)
    pure id)
  := by
  apply Retaining.bind retaining_uuid
  intro id hid
  apply retainsAll_now.bind
  intro now
  apply (retainsAll_withConnection (h id now hid)).bind
  intro _
  apply retaining_pure trivial

/-! ### The calls -/

theorem retainsAll_saveMemory (codec : TagCodec) (project category content : String)
    (tags : List String) :
  RetainsAll ids tables (MemoryStorage.saveMemory codec project category content tags)
  := by
  apply retainsAll_insert
  intro id now hid
  apply Connection.maintains_statement
  intro tables' _ tables'' h hinsert
  apply h.insertMemory hid hinsert

theorem retainsAll_updateMemory (codec : TagCodec) (id content : String) (tags : List String) :
  RetainsAll ids tables (MemoryStorage.updateMemory codec id content tags)
  := by
  apply retainsAll_now.bind
  intro now
  apply retainsAll_execute
  intro tables' h
  apply h.updateMemory

theorem retainsAll_deleteMemory (id : String) :
  RetainsAll ids tables (MemoryStorage.deleteMemory id)
  := by
  apply retainsAll_execute
  intro tables' h
  apply h.deleteMemory

theorem retainsAll_startSession (project agentType model : String) :
  RetainsAll ids tables (SessionManager.startSession project agentType model)
  := by
  apply retainsAll_insert
  intro id now _
  apply Connection.maintains_statement
  intro tables' _ tables'' h hinsert
  apply h.insertSession hinsert

theorem retainsAll_endSession (sessionId summary : String) :
  RetainsAll ids tables (SessionManager.endSession sessionId summary)
  := by
  apply retainsAll_now.bind
  intro now
  have hend : Connection.Maintains (Retained ids tables)
      (Connection.execute (endSession now sessionId)) := by
    apply Connection.maintains_execute
    intro tables' h
    apply h.endSession
  split
  · apply retainsAll_withConnection hend
  · apply retainsAll_uuid.bind
    intro summaryId
    apply retainsAll_withConnection
    apply hend.bind
    intro _
    apply Connection.Maintains.bind (P := Retained ids tables) Connection.maintains_select
    intro project
    apply Connection.maintains_statement
    intro tables' _ tables'' h hinsert
    apply h.insertSummary hinsert

theorem retainsAll_updateCounts (arithmetic : RealArithmetic) (currentTimestamp sessionId : String)
    (tokens messages tools : Int64) :
  RetainsAll ids tables
    (SessionManager.updateCounts arithmetic currentTimestamp sessionId tokens messages tools)
  := by
  apply retainsAll_execute
  intro tables' h
  apply h.updateCounts

theorem retainsAll_saveObservation (sessionId observationType content : String)
    (context : Option String) :
  RetainsAll ids tables
    (ObservationStorage.saveObservation sessionId observationType content context)
  := by
  apply retainsAll_insert
  intro id now _
  apply Connection.Maintains.bind (P := Retained ids tables) Connection.maintains_select
  intro project
  apply Connection.maintains_statement
  intro tables' _ tables'' h hinsert
  apply h.insertObservation hinsert

theorem retainsAll_saveObservationWithProject
    (sessionId project observationType content : String) (context : Option String) :
  RetainsAll ids tables (ObservationStorage.saveObservationWithProject sessionId project
    observationType content context)
  := by
  apply retainsAll_insert
  intro id now _
  apply Connection.maintains_statement
  intro tables' _ tables'' h hinsert
  apply h.insertObservation hinsert

theorem retainsAll_deleteEmbedding (entityType entityId : String) :
  RetainsAll ids tables (EmbeddingStore.delete entityType entityId)
  := by
  apply retainsAll_execute
  intro tables' h
  apply h.setEmbeddings

theorem retainsAll_query {find : MemoryTables → α} :
  RetainsAll ids tables (withConnection (Connection.query find))
  := retainsAll_withConnection Connection.maintains_query

theorem retainsAll_select {find : MemoryTables → Except String α} :
  RetainsAll ids tables (withConnection (Connection.select find))
  := retainsAll_withConnection Connection.maintains_select

theorem retainsAll_sessionStats (project : String) :
  RetainsAll ids tables (SessionManager.sessionStats project)
  := by
  apply retainsAll_withConnection
  apply Connection.Maintains.bind (P := Retained ids tables) Connection.maintains_query
  intro count
  apply Connection.Maintains.bind (P := Retained ids tables) Connection.maintains_query.attempt
  intro last
  apply Connection.maintains_pure

/-! ### The tools -/

/-- A program made of programs that retain what is recorded retains it. -/
theorem compositional_retainsAll :
  Compositional (fun _ program => RetainsAll ids tables program)
  := by
  constructor
  · intro α x
    apply retainsAll_result
  · intro α β program f h hf
    apply h.bind hf
  · intro α program h g
    apply Retaining.mapError h

section Tools

variable {F : Type} [SingleFloat F]

theorem retainsAll_storeEmbedding (embedding : Embedding F) :
  RetainsAll ids tables (EmbeddingStore.store embedding)
  := by
  apply retainsAll_execute
  intro tables' h
  apply h.setEmbeddings

theorem retainsAll_write (codec : TagCodec) (tool : MemoryWrite) (args : Json) :
  RetainsAll ids tables (tool.handler F codec args)
  := by
  cases tool with
  | saveMemory =>
      apply compositional_retainsAll.saveMemory (retainsAll_saveMemory codec) retainsAll_uuid
        retainsAll_storeEmbedding
  | updateMemory => apply compositional_retainsAll.updateMemory (retainsAll_updateMemory codec)
  | deleteMemory =>
      apply compositional_retainsAll.deleteMemory retainsAll_deleteMemory retainsAll_deleteEmbedding
  | startSession => apply compositional_retainsAll.startSession retainsAll_startSession
  | saveObservation => apply compositional_retainsAll.saveObservation retainsAll_saveObservation
  | endSession => apply compositional_retainsAll.endSession retainsAll_endSession

section Reads

variable (sorting : SortBy) (orders : Orders F) (codec : TagCodec)

theorem retainsAll_searchMemoriesKeyword (scan : Scan MemoryRow) (project query : String)
    (category : Option String) (limit : ℕ) :
  RetainsAll ids tables
    (MemoryStorage.searchMemoriesKeyword scan codec project query category limit)
  := by
  rw [MemoryStorage.searchMemoriesKeyword]
  split
  · apply retainsAll_query
  · apply retainsAll_select

theorem retainsAll_mergeVectors {lookup : String → MemoryM (Except String (Option Memory))}
    (hlookup : ∀ id, RetainsAll ids tables (lookup id)) (entities : List (String × String × F))
    (resultMap : List (ContextResult F)) :
  RetainsAll ids tables (ContextResult.mergeVectors lookup resultMap entities)
  := by
  induction entities generalizing resultMap with
  | nil => apply retaining_pure trivial
  | cons e entities ih =>
      obtain ⟨entityType, entityId, similarity⟩ := e
      rw [ContextResult.mergeVectors]
      split
      · apply ih
      · split
        · apply ih
        · apply (hlookup entityId).bind
          intro found
          split
          · apply ih
          · apply ih

theorem retainsAll_getContext (project query : String) (vector : Option (List F)) (budget : ℕ)
    (category : Option String) :
  RetainsAll ids tables
    (HybridSearch.getContext sorting orders codec project query vector budget category)
  := by
  apply (retainsAll_searchMemoriesKeyword codec _ _ _ _ _).bind
  intro keywordResults
  cases vector with
  | none => apply retaining_pure trivial
  | some queryVec =>
      apply RetainsAll.bind retainsAll_query
      intro vectorResults
      apply RetainsAll.bind
      · apply retainsAll_mergeVectors
        intro id
        apply RetainsAll.fallible retainsAll_query
      · intro resultMap
        apply retaining_pure trivial

theorem retainsAll_read (tool : ProjectRead) (args : Json) :
  RetainsAll ids tables (tool.handler sorting orders codec args)
  := by
  cases tool with
  | listMemories =>
      apply compositional_retainsAll.requiredStr_bind
      intro project
      apply compositional_retainsAll.answer retainsAll_query
  | searchMemory =>
      apply compositional_retainsAll.requiredStr_bind
      intro project
      apply compositional_retainsAll.requiredStr_bind
      intro query
      apply compositional_retainsAll.answer (retainsAll_getContext sorting orders codec _ _ _ _ _)
  | getContext =>
      apply compositional_retainsAll.requiredStr_bind
      intro project
      apply compositional_retainsAll.requiredStr_bind
      intro query
      apply compositional_retainsAll.answer (retainsAll_getContext sorting orders codec _ _ _ _ _)
  | getProjectSummary =>
      apply compositional_retainsAll.requiredStr_bind
      intro project
      apply RetainsAll.bind (Retaining.mapError retainsAll_query _)
      intro categories
      apply RetainsAll.bind (Retaining.mapError retainsAll_query _)
      intro recent
      apply RetainsAll.bind (Retaining.mapError (retainsAll_sessionStats project) _)
      intro stats
      apply compositional_retainsAll.answer retainsAll_query

end Reads

/-- A memory that is gone is not found. -/
theorem retaining_getMemory {codec : TagCodec} (scan : Scan MemoryRow) {id : String}
    (hid : id ∈ ids) (hgone : id ∉ tables.memories.map MemoryRow.id) (args : Json) :
  Retaining ids tables
    (fun answer => (args.index "memory_id").asStr = some id →
      answer = .object [("memory", .null)])
    (MemoryTools.getMemory scan codec args)
  := by
  have hrequired : Retaining ids tables (fun value => (args.index "memory_id").asStr = some value)
      (requiredStr args "memory_id") := by
    apply Program.Maintains.ret
    intro value hvalue
    cases hfield : (args.index "memory_id").asStr with
    | none =>
        rw [hfield] at hvalue
        cases hvalue
    | some text =>
        rw [hfield] at hvalue
        rw [Except.ok.inj hvalue]
  apply hrequired.bind
  intro memoryId hmemoryId
  apply Retaining.bind (Retaining.mapError retaining_query _)
  rintro (_ | mem) ⟨tables', hretained, hfound⟩
  · apply retaining_pure
    intro _
    rfl
  · apply retaining_pure
    intro hsame
    obtain rfl := Option.some.inj (hmemoryId.symm.trans hsame)
    obtain ⟨row, hrow, -⟩ := Option.map_eq_some_iff.mp hfound.symm
    have hmem : row ∈ tables'.memories.filter (fun row => row.id = memoryId) :=
      (scan.perm _).mem_iff.mp (List.mem_of_head? hrow)
    obtain ⟨hrow, hrowid⟩ := List.mem_filter.mp hmem
    cases hretained.notMem_memories hid hgone
      (List.mem_map.mpr ⟨row, hrow, of_decide_eq_true hrowid⟩)

end Tools

end MemoryM

/-! ### Runs -/

section Runs

variable {F : Type} [SingleFloat F]

theorem WritingCall.retainsAll {ids : List String} {tables : MemoryTables} (codec : TagCodec)
    (call : WritingCall F) :
  MemoryM.RetainsAll ids tables (call.program codec)
  := by
  cases call with
  | tool write args => apply (MemoryM.retainsAll_write codec write args).discard
  | saveMemory project category content tags =>
      apply (MemoryM.retainsAll_saveMemory codec project category content tags).discard
  | updateMemory id content tags => apply MemoryM.retainsAll_updateMemory codec id content tags
  | deleteMemory id => apply MemoryM.retainsAll_deleteMemory id
  | startSession project agentType model =>
      apply (MemoryM.retainsAll_startSession project agentType model).discard
  | endSession sessionId summary => apply MemoryM.retainsAll_endSession sessionId summary
  | updateCounts arithmetic currentTimestamp sessionId tokens messages tools =>
      apply MemoryM.retainsAll_updateCounts
  | saveObservation sessionId observationType content context =>
      apply (MemoryM.retainsAll_saveObservation sessionId observationType content context).discard
  | saveObservationWithProject sessionId project observationType content context =>
      apply (MemoryM.retainsAll_saveObservationWithProject sessionId project observationType content
        context).discard
  | storeEmbedding embedding => apply MemoryM.retainsAll_storeEmbedding embedding
  | deleteEmbedding entityType entityId => apply MemoryM.retainsAll_deleteEmbedding

/-- What is recorded is retained by every run of calls that write, however they interleave and
whichever of their statements fail. -/
theorem retained_of_run {codec : TagCodec} {calls : List (WritingCall F)} {s : MemoryState}
    {c : Pool MemoryOp MemoryAns (Except String Unit) MemoryState}
    (h : Pool.Run MemoryOp.Step Pool.anyStep
      ⟨s, calls.map (fun call => (call.program codec).run)⟩ c) :
  s.db.tables.Retained s.issued c.state.db.tables
  := by
  have hcalls : ∀ t ∈ calls.map (fun call => (call.program codec).run),
      Program.Maintains MemoryOp.Step (MemoryState.Retains s.issued s.db.tables)
        (fun r => ∀ a, r = .ok a → True) t := by
    intro t ht
    obtain ⟨call, -, rfl⟩ := List.mem_map.mp ht
    apply call.retainsAll
  apply (h.maintains s.retains_self hcalls).1.retained

/-- A call that asks for the memory with an id answers that there is none. -/
def MemoryCall.FindsNone (id : String) : MemoryCall → Json → Prop
  | .getMemory args, answer =>
      (args.index "memory_id").asStr = some id → answer = .object [("memory", .null)]
  | .write _ _, _ => True
  | .read _ _, _ => True

theorem MemoryCall.retaining (sorting : SortBy) (orders : Orders F) (codec : TagCodec)
    {ids : List String} {tables : MemoryTables} {id : String} (hid : id ∈ ids)
    (hgone : id ∉ tables.memories.map MemoryRow.id) (call : MemoryCall) :
  Program.Maintains MemoryOp.Step (MemoryState.Retains ids tables)
    (fun r => ∀ answer, r = .ok answer → call.FindsNone id answer)
    (call.program sorting orders codec)
  := by
  cases call with
  | write tool args => apply MemoryM.retainsAll_write codec tool args
  | read tool args => apply MemoryM.retainsAll_read sorting orders codec tool args
  | getMemory args => apply MemoryM.retaining_getMemory orders.memories hid hgone args

/-- Once the memory with an id is gone, no call finds it, whichever tools run at once and whichever
of their statements fail. -/
theorem never_found_again {sorting : SortBy} {orders : Orders F} {codec : TagCodec}
    {calls : List MemoryCall} {s : MemoryState} {c : MemoryPool} {id : String}
    (hid : id ∈ s.issued) (hgone : id ∉ s.db.tables.memories.map MemoryRow.id)
    (h : Pool.Run MemoryOp.Step Pool.anyStep
      ⟨s, calls.map (MemoryCall.program sorting orders codec)⟩ c) :
  id ∉ c.state.db.tables.memories.map MemoryRow.id
    ∧ ∀ (i : ℕ) (args answer : Json), calls[i]? = some (.getMemory args) →
      (args.index "memory_id").asStr = some id → c.threads[i]? = some (.ret (.ok answer)) →
      answer = .object [("memory", .null)]
  := by
  have hcalls : ∀ (i : ℕ) t, (calls.map (MemoryCall.program sorting orders codec))[i]? = some t →
      Program.Maintains MemoryOp.Step (MemoryState.Retains s.issued s.db.tables)
        (fun r : Except String Json => ∀ answer, r = .ok answer →
          ∀ call : MemoryCall, calls[i]? = some call → call.FindsNone id answer) t := by
    intro i t ht
    rw [List.getElem?_map] at ht
    obtain ⟨call, hcall, rfl⟩ := Option.map_eq_some_iff.mp ht
    apply (call.retaining sorting orders codec hid hgone).mono
    intro r hr answer hanswer call' hcall'
    obtain rfl := Option.some.inj (hcall.symm.trans hcall')
    apply hr answer hanswer
  obtain ⟨hretains, hanswers⟩ := h.maintains_each s.retains_self hcalls
  use hretains.retained.notMem_memories hid hgone
  intro i args answer hcall hargs hreturned
  cases hanswers i _ hreturned with
  | ret hanswer => apply hanswer answer rfl (.getMemory args) hcall hargs

end Runs

/-! ### A note deleted while another one is saved and a session is ended -/

/-- A session of the project. -/
def alphaSession (id startedAt : String) : SessionRow :=
  { id, project := "alpha", startedAt, endedAt := none, agentType := "claude", model := "opus",
    tokenCount := 0, messageCount := 0, toolCount := 0, updatedAt := none }

/-- An observation of the session. -/
def alphaObservation : ObservationRow :=
  { id := "o1", sessionId := "s1", project := "alpha", observationType := "bug",
    content := "a leak", context := none, timestamp := "1" }

/-- A summary of the session. -/
def alphaSummary (id content timestamp : String) : SummaryRow :=
  { id, sessionId := "s1", project := "alpha", summaryType := "session_summary", content,
    tokens := 0, timestamp }

/-- Tables with a session, its observation, and summaries and notes. -/
def sessionTables (session : SessionRow) (summaries : List SummaryRow)
    (memories : List MemoryRow) : MemoryTables :=
  { sessions := [session], observations := [alphaObservation], summaries := summaries,
    embeddings := [], memories := memories }

/-- A note is saved, the first one is deleted, and the session is ended. -/
def saveForgetEnd : List (WritingCall F32) :=
  [.saveMemory "alpha" "notes" "third" [], .deleteMemory "m1", .endSession "s1" "fixed"]

/-- The first note is deleted and the second one stays; the session is ended, and its summary comes
after the first one. -/
theorem retained_save_forget_end :
  ∃ c : Pool MemoryOp MemoryAns (Except String Unit) MemoryState,
    let before := sessionTables (alphaSession "s1" "1") [alphaSummary "u1" "begun" "1"]
      [noteRow "m1" "alpha" "first", noteRow "m2" "alpha" "second"]
    Pool.Run MemoryOp.Step Pool.anyStep
      ⟨⟨⟨before, []⟩, ["m2", "m1", "u1", "o1", "s1"]⟩,
        saveForgetEnd.map (fun call => (call.program noTags).run)⟩ c
    ∧ c.Returned
    ∧ c.state.db.tables = sessionTables
      { alphaSession "s1" "1" with endedAt := some "2", updatedAt := some "2" }
      [alphaSummary "u1" "begun" "1", alphaSummary "u2" "fixed" "2"]
      [noteRow "m2" "alpha" "second", noteRow "m3" "alpha" "third"]
    ∧ before.Retained ["m2", "m1", "u1", "o1", "s1"] c.state.db.tables
  := by
  let begun := alphaSession "s1" "1"
  let ended : SessionRow := { begun with endedAt := some "2", updatedAt := some "2" }
  let begunSummary := alphaSummary "u1" "begun" "1"
  let first := noteRow "m1" "alpha" "first"
  let second := noteRow "m2" "alpha" "second"
  let third := noteRow "m3" "alpha" "third"
  let ids := ["m2", "m1", "u1", "o1", "s1"]
  let before : MemoryState := ⟨⟨sessionTables begun [begunSummary] [first, second], []⟩, ids⟩
  let issued : MemoryState :=
    ⟨⟨sessionTables begun [begunSummary] [first, second], []⟩, "u2" :: "m3" :: ids⟩
  let deleted : MemoryState :=
    ⟨⟨sessionTables begun [begunSummary] [second], []⟩, "u2" :: "m3" :: ids⟩
  let summarised : MemoryState :=
    ⟨⟨sessionTables ended [begunSummary, alphaSummary "u2" "fixed" "2"] [second], []⟩,
      "u2" :: "m3" :: ids⟩
  let saved : MemoryState :=
    ⟨⟨sessionTables ended [begunSummary, alphaSummary "u2" "fixed" "2"] [second, third], []⟩,
      "u2" :: "m3" :: ids⟩
  have hnote : "m3" ∉ ids := by decide
  have hsummary : "u2" ∉ "m3" :: ids := by decide
  have hdelete : MemoryOp.Step (.connection (Connection.execute (MemoryTables.deleteMemory "m1")))
      issued (Except.ok () : Except String Unit) deleted := ⟨rfl, rfl⟩
  have hend : MemoryOp.Step (.connection (do
        Connection.execute (MemoryTables.endSession "2" "s1")
        let project ← Connection.select (MemoryTables.sessionProject "s1")
        Connection.statement (MemoryTables.insertSummary { alphaSummary "u2" "fixed" "2" with
          project })))
      deleted (Except.ok () : Except String Unit) summarised := ⟨rfl, rfl⟩
  have hinsert : MemoryOp.Step (.connection (Connection.statement
        (MemoryTables.insertMemory third)))
      summarised (Except.ok () : Except String Unit) saved := ⟨rfl, rfl⟩
  have hstart : Pool.Run MemoryOp.Step Pool.anyStep
      ⟨before, saveForgetEnd.map (fun call => (call.program noTags).run)⟩
      ⟨before, saveForgetEnd.map (fun call => (call.program noTags).run)⟩ := Pool.Run.refl
  have hrun := hstart.next 0 _ rfl trivial (step_uuid "m3" hnote) rfl
  replace hrun := hrun.next 2 _ rfl trivial (step_now "2") rfl
  replace hrun := hrun.next 2 _ rfl trivial (step_uuid "u2" hsummary) rfl
  replace hrun := hrun.next 1 _ rfl trivial hdelete rfl
  replace hrun := hrun.next 2 _ rfl trivial hend rfl
  replace hrun := hrun.next 0 _ rfl trivial (step_now "") rfl
  replace hrun := hrun.next 0 _ rfl trivial hinsert rfl
  let results : List (Except String Unit) := [.ok (), .ok (), .ok ()]
  use ⟨saved, results.map .ret⟩, hrun
  exact ⟨Pool.returned_map_ret _ results, rfl, retained_of_run hrun⟩

/-- The note is asked for after it was deleted. -/
theorem never_found_deleted :
  ∃ c : MemoryPool, Pool.Run MemoryOp.Step Pool.anyStep
      ⟨noteState [] [] ["m1"],
        saveAndGet.map (MemoryCall.program SortBy.merge insertedOrders noTags)⟩ c
    ∧ "m1" ∉ c.state.db.tables.memories.map MemoryRow.id
    ∧ ∀ (i : ℕ) (args answer : Json), saveAndGet[i]? = some (.getMemory args) →
      (args.index "memory_id").asStr = some "m1" → c.threads[i]? = some (.ret (.ok answer)) →
      answer = .object [("memory", .null)]
  := by
  have hstart : Pool.Run MemoryOp.Step Pool.anyStep
      ⟨noteState [] [] ["m1"],
        saveAndGet.map (MemoryCall.program SortBy.merge insertedOrders noTags)⟩
      ⟨noteState [] [] ["m1"],
        saveAndGet.map (MemoryCall.program SortBy.merge insertedOrders noTags)⟩ := Pool.Run.refl
  have hrun := hstart.next 1 _ rfl trivial (step_query rfl) rfl
  exact ⟨_, hrun, never_found_again List.mem_cons_self List.not_mem_nil hrun⟩

end OrchestraRag
