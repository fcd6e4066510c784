import OrchestraRag.Library.Linearization
import OrchestraRag.Memory.Filter
import OrchestraRag.Memory.Orphans

/-!
# Memory tools that are one statement

A call of a memory tool that holds the connection once prepares itself, by taking UUIDs and looking
at the clock, and acts once.  Whatever such calls do at once, and whichever of their statements
fail, they do when they run one after another (`linearizable_statements`).

Saving a memory with a vector, deleting one, a search with a vector and the summary of a project
hold the connection more than once.
-/

namespace OrchestraRag

open Sql

/-! ### Names -/

/-- The operation leaves the database. -/
def MemoryOp.Local : MemoryOp → Prop
  | .uuid => True
  | .now => True
  | .connection _ => False

/-- The UUIDs that an operation takes. -/
def MemoryOp.taken : (op : MemoryOp) → MemoryAns op → Set String
  | .uuid, id => {(id : String)}
  | .now, _ => ∅
  | .connection _, _ => ∅

/-- Programs on the memory tables share the database, and take UUIDs that nobody has. -/
def memoryNaming : Naming MemoryOp.Step (Db MemoryTables) String where
  data s := s.db
  names s := {id | id ∈ s.issued}
  Local := MemoryOp.Local
  taken := MemoryOp.taken
  local_iff := by
    intro op s x s' hlocal hstep
    cases op with
    | uuid =>
        obtain ⟨hnew, rfl⟩ := hstep
        refine ⟨Set.disjoint_singleton_left.mpr hnew, rfl, ?_⟩
        ext id
        apply List.mem_cons.trans or_comm
    | now =>
        obtain rfl := hstep
        exact ⟨Set.empty_disjoint _, rfl, (Set.union_empty _).symm⟩
    | connection c => cases hlocal
  exists_local := by
    intro op s x hlocal hnew
    cases op with
    | uuid =>
        have hid : (x : String) ∉ s.issued := by
          apply (Set.disjoint_left.mp hnew) rfl
        exact ⟨_, hid, rfl⟩
    | now => exact ⟨s, rfl⟩
    | connection c => cases hlocal
  names_of_act := by
    intro op s x s' hact hstep
    cases op with
    | uuid => cases hact trivial
    | now => cases hact trivial
    | connection c =>
        obtain ⟨-, hissued⟩ := hstep
        rw [hissued]
  exists_act := by
    intro op s t x s' hact hstep hdata
    cases op with
    | uuid => cases hact trivial
    | now => cases hact trivial
    | connection c =>
        obtain ⟨hon, -⟩ := hstep
        use ⟨s'.db, t.issued⟩
        refine ⟨⟨?_, rfl⟩, rfl⟩
        rw [hdata]
        apply hon

/-! ### Statements -/

namespace MemoryM

variable {α β : Type}

/-- The program prepares itself, and holds the connection once at most. -/
abbrev OneStatement (program : MemoryM α) : Prop :=
  program.run.ActsOnce MemoryOp.Local

theorem local_uuid :
  uuid.run.Uses MemoryOp.Local
  := (@Program.uses_call _ MemoryOp.Local MemoryAns .uuid trivial).map _

theorem local_now :
  now.run.Uses MemoryOp.Local
  := (@Program.uses_call _ MemoryOp.Local MemoryAns .now trivial).map _

theorem oneStatement_withConnection (c : Connection MemoryTables α) :
  OneStatement (withConnection c)
  := by
  have hcall : Program.ActsOnce MemoryOp.Local
      (Program.call (MemoryOp.connection c) : Program MemoryOp MemoryAns _) :=
    Program.actsOnce_call id
  apply hcall.map

theorem OneStatement.named {program : MemoryM α} (h : OneStatement program) (call : String) :
  OneStatement (program.named call)
  := Program.ActsOnce.map h _

/-- A statement may use a new UUID. -/
theorem oneStatement_uuid_bind {f : String → MemoryM α} (h : ∀ id, OneStatement (f id)) :
  OneStatement (uuid >>= f)
  := Program.ActsOnce.fallible_bind local_uuid h

/-- A statement may use the time. -/
theorem oneStatement_now_bind {f : String → MemoryM α} (h : ∀ time, OneStatement (f time)) :
  OneStatement (now >>= f)
  := Program.ActsOnce.fallible_bind local_now h

theorem OneStatement.bind_pure {program : MemoryM α} {f : α → MemoryM β} (h : OneStatement program)
    (hf : ∀ a, ∃ b, f a = pure b) :
  OneStatement (program >>= f)
  := by
  apply Program.ActsOnce.fallible_ret h
  intro a
  obtain ⟨b, hb⟩ := hf a
  use .ok b
  rw [hb]
  rfl

theorem oneStatement_requiredStr_bind {args : Json} {field : String} {f : String → MemoryM α}
    (h : ∀ value, OneStatement (f value)) :
  OneStatement (requiredStr args field >>= f)
  := Program.ActsOnce.fallible_bind Program.Uses.ret h

/-- A call that is named, and the answer after it. -/
theorem OneStatement.answer {program : MemoryM α} (h : OneStatement program) (call : String)
    (answer : α → Json) :
  OneStatement (program.named call >>= fun a => pure (answer a))
  := (h.named call).bind_pure (fun a => ⟨answer a, rfl⟩)

/-- A row is inserted under a new id and the time of now. -/
theorem oneStatement_insert (c : String → String → Connection MemoryTables Unit) :
  OneStatement (do
    let id ← uuid
    let now ← now
    withConnection (c id now)
    pure id)
  := by
  apply oneStatement_uuid_bind
  intro id
  apply oneStatement_now_bind
  intro now
  apply (oneStatement_withConnection (c id now)).bind_pure
  intro _
  exact ⟨id, rfl⟩

end MemoryM

open MemoryM

/-! ### Calls -/

section Calls

theorem oneStatement_updateMemory (codec : TagCodec) (id content : String) (tags : List String) :
  OneStatement (MemoryStorage.updateMemory codec id content tags)
  := by
  apply oneStatement_now_bind
  intro now
  apply oneStatement_withConnection

theorem oneStatement_endSession (sessionId summary : String) :
  OneStatement (SessionManager.endSession sessionId summary)
  := by
  apply oneStatement_now_bind
  intro now
  split
  · apply oneStatement_withConnection
  · apply oneStatement_uuid_bind
    intro summaryId
    apply oneStatement_withConnection

theorem oneStatement_searchMemoriesKeyword (scan : Scan MemoryRow) (codec : TagCodec)
    (project query : String) (category : Option String) (limit : ℕ) :
  OneStatement (MemoryStorage.searchMemoriesKeyword scan codec project query category limit)
  := by
  rw [MemoryStorage.searchMemoriesKeyword]
  split
  · apply oneStatement_withConnection
  · apply oneStatement_withConnection

/-- Without a vector a search is the one of its keywords. -/
theorem oneStatement_getContext {F : Type} [SingleFloat F] (sorting : SortBy) (orders : Orders F)
    (codec : TagCodec) (project query : String) (budget : ℕ) (category : Option String) :
  OneStatement (HybridSearch.getContext sorting orders codec project query none budget category)
  := by
  apply OneStatement.bind_pure
  · apply oneStatement_searchMemoriesKeyword
  · intro keywordResults
    exact ⟨_, rfl⟩

end Calls

/-! ### Tools -/

/-- A call of a tool. -/
inductive MemoryCall where
  | write (tool : MemoryWrite) (args : Json)
  | read (tool : ProjectRead) (args : Json)
  | getMemory (args : Json)

namespace MemoryCall

variable {F : Type} [SingleFloat F] (sorting : SortBy) (orders : Orders F) (codec : TagCodec)

def program : MemoryCall → MemoryThread
  | .write tool args => (tool.handler F codec args).run
  | .read tool args => (tool.handler sorting orders codec args).run
  | .getMemory args => (MemoryTools.getMemory orders.memories codec args).run

variable (F)

/-- The call holds the connection once. -/
def HoldsOnce : MemoryCall → Prop
  | .write .saveMemory args => (vectorOf F args).getD [] = []
  | .write .deleteMemory _ => False
  | .write _ _ => True
  | .read .searchMemory args => vectorOf F args = none
  | .read .getContext args => vectorOf F args = none
  | .read .getProjectSummary _ => False
  | .read .listMemories _ => True
  | .getMemory _ => True

variable {F}

theorem oneStatement_saveMemory {args : Json} (h : (vectorOf F args).getD [] = []) :
  OneStatement (MemoryTools.saveMemory F codec args)
  := by
  rw [MemoryTools.saveMemory_eq, h]
  apply oneStatement_requiredStr_bind
  intro project
  apply oneStatement_requiredStr_bind
  intro category
  apply oneStatement_requiredStr_bind
  intro content
  apply (oneStatement_insert _).answer

theorem actsOnce_write {tool : MemoryWrite} {args : Json} (h : HoldsOnce F (.write tool args)) :
  OneStatement (tool.handler F codec args)
  := by
  cases tool with
  | saveMemory => apply oneStatement_saveMemory codec h
  | updateMemory =>
      apply oneStatement_requiredStr_bind
      intro memoryId
      apply oneStatement_requiredStr_bind
      intro content
      apply (oneStatement_updateMemory codec memoryId content (tagsOf args)).answer
  | deleteMemory => cases h
  | startSession =>
      apply oneStatement_requiredStr_bind
      intro project
      apply oneStatement_requiredStr_bind
      intro agentType
      apply oneStatement_requiredStr_bind
      intro model
      apply (oneStatement_insert _).answer
  | saveObservation =>
      apply oneStatement_requiredStr_bind
      intro sessionId
      apply oneStatement_requiredStr_bind
      intro observationType
      apply oneStatement_requiredStr_bind
      intro content
      apply (oneStatement_insert _).answer
  | endSession =>
      apply oneStatement_requiredStr_bind
      intro sessionId
      apply (oneStatement_endSession sessionId _).answer

theorem actsOnce_read {tool : ProjectRead} {args : Json} (h : HoldsOnce F (.read tool args)) :
  OneStatement (tool.handler sorting orders codec args)
  := by
  cases tool with
  | listMemories =>
      apply oneStatement_requiredStr_bind
      intro project
      apply (oneStatement_withConnection _).answer
  | searchMemory =>
      apply oneStatement_requiredStr_bind
      intro project
      apply oneStatement_requiredStr_bind
      intro query
      obtain h : vectorOf F args = none := h
      rw [h]
      apply (oneStatement_getContext sorting orders codec project query _ _).answer
  | getContext =>
      apply oneStatement_requiredStr_bind
      intro project
      apply oneStatement_requiredStr_bind
      intro query
      obtain h : vectorOf F args = none := h
      rw [h]
      apply (oneStatement_getContext sorting orders codec project query _ _).answer
  | getProjectSummary => cases h

theorem actsOnce_program {call : MemoryCall} (h : HoldsOnce F call) :
  (call.program sorting orders codec).ActsOnce MemoryOp.Local
  := by
  cases call with
  | write tool args => apply actsOnce_write codec h
  | read tool args => apply actsOnce_read sorting orders codec h
  | getMemory args =>
      apply oneStatement_requiredStr_bind
      intro memoryId
      apply ((oneStatement_withConnection _).named _).bind_pure
      rintro (_ | mem)
      · exact ⟨_, rfl⟩
      · exact ⟨_, rfl⟩

end MemoryCall

section Linearizable

variable {F : Type} [SingleFloat F] (sorting : SortBy) (orders : Orders F) (codec : TagCodec)

/-- Calls that hold the connection once may run one after another, in the order in which they hold
it, to the same answers and the same database; at every moment of their run they have done the
first of these turns. -/
theorem linearizable_statements {calls : List MemoryCall}
    (hcalls : ∀ call ∈ calls, call.HoldsOnce F) {s : MemoryState} {c : MemoryPool}
    {events : List (Event MemoryOp MemoryAns (Except String Json))}
    (h : Pool.Recorded MemoryOp.Step
      ⟨s, calls.map (MemoryCall.program sorting orders codec)⟩ events c) :
  let programs := calls.map (MemoryCall.program sorting orders codec)
  Pool.Linearizes memoryNaming programs s events c
    ∧ ∀ first rest, events = first ++ rest → ∃ c₁,
      Pool.Recorded MemoryOp.Step ⟨s, programs⟩ first c₁
      ∧ Pool.Recorded MemoryOp.Step c₁ rest c
      ∧ Pool.Linearizes memoryNaming programs s first c₁
      ∧ Pool.turns programs first <+: Pool.turns programs events
  := by
  intro programs
  apply Pool.linearizable memoryNaming _ h
  intro p hp
  obtain ⟨call, hcall, rfl⟩ := List.mem_map.mp hp
  apply MemoryCall.actsOnce_program sorting orders codec (hcalls call hcall)

end Linearizable

/-- A note is saved, and read by its id. -/
def saveAndGet : List MemoryCall :=
  [.write .saveMemory (noteArgs "alpha" "first"),
    .getMemory (.object [("memory_id", .string "m1")])]

/-- A query that finds no note. -/
theorem step_query {find : MemoryTables → Option Memory} {issued : List String}
    (h : find MemoryTables.empty = none) :
  MemoryOp.Step (.connection (Connection.query find)) (noteState [] [] issued)
    (Except.ok none : Except String (Option Memory)) (noteState [] [] issued)
  := by
  refine ⟨?_, rfl⟩
  rw [Connection.query_on_ok rfl]
  obtain h : find (noteState [] [] issued).db.tables = none := h
  rw [h]
  rfl

/-- The note is read after its id was taken, before it is saved: the turn of the read is the
first. -/
theorem linearizable_save_get :
  let programs := saveAndGet.map (MemoryCall.program SortBy.merge insertedOrders noTags)
  ∃ events, ∃ c : MemoryPool, c.Returned
    ∧ Pool.Recorded MemoryOp.Step ⟨noteState [] [] [], programs⟩ events c
    ∧ (Pool.turns programs events).map Prod.fst = [1, 0]
    ∧ Pool.Linearizes memoryNaming programs (noteState [] [] []) events c
    ∧ ∀ first rest, events = first ++ rest → ∃ c₁,
      Pool.Recorded MemoryOp.Step ⟨noteState [] [] [], programs⟩ first c₁
      ∧ Pool.Recorded MemoryOp.Step c₁ rest c
      ∧ Pool.Linearizes memoryNaming programs (noteState [] [] []) first c₁
      ∧ Pool.turns programs first <+: Pool.turns programs events
  := by
  intro programs
  have honce : ∀ call ∈ saveAndGet, call.HoldsOnce F32 := by
    intro call hcall
    obtain rfl | hcall := List.mem_cons.mp hcall
    · rfl
    · obtain rfl := List.mem_singleton.mp hcall
      trivial
  let results : List (Except String Json) :=
    [.ok (MemoryTools.savedAnswer "m1"), .ok (.object [("memory", .null)])]
  have hstart : Pool.Recorded MemoryOp.Step ⟨noteState [] [] [], programs⟩ []
      ⟨noteState [] [] [], programs⟩ := Pool.Recorded.refl
  have hrun := hstart.next 0 _ rfl (step_uuid "m1" List.not_mem_nil) rfl
  replace hrun := hrun.next 1 _ rfl (step_query rfl) rfl
  replace hrun := hrun.next 0 _ rfl (step_now "") rfl
  replace hrun : Pool.Recorded MemoryOp.Step ⟨noteState [] [] [], programs⟩ _
      ⟨noteState [noteRow "m1" "alpha" "first"] [] ["m1"], results.map .ret⟩ :=
    hrun.next 0 _ rfl step_insert rfl
  exact ⟨_, _, Pool.returned_map_ret _ results, hrun, rfl,
    linearizable_statements SortBy.merge insertedOrders noTags honce hrun⟩

end OrchestraRag
