import OrchestraRag.Memory.Interference

/-!
# Acknowledged writes stay

A tool that answers that it saved something has saved it, and nothing that other calls do at the
same time undoes it: the observation, the session, the end of the session, its summary and, unless
a call deletes memories, the memory are in the tables at the end of every run
(`acknowledged_stays`), whichever statements of other calls fail.

Each tool ensures this when it returns, whatever other calls did before (`MemoryWrite.ensures`).
-/

namespace OrchestraRag

open Sql

/-! ### The tables -/

/-- What `tables` record is in `tables'`, too; memories stay if they are `kept`. -/
structure MemoryTables.Grown (kept : Prop) (tables tables' : MemoryTables) : Prop where
  observations : tables.observations ⊆ tables'.observations
  summaries : tables.summaries ⊆ tables'.summaries
  sessions : ∀ session ∈ tables.sessions, ∃ later ∈ tables'.sessions, session.Becomes later
  memories : kept → tables.Added tables'

namespace MemoryTables

variable {kept : Prop} {tables tables' tables'' : MemoryTables}

theorem Grown.trans (h : Grown kept tables tables') (h' : Grown kept tables' tables'') :
  Grown kept tables tables''
  := by
  constructor
  · apply List.Subset.trans h.observations h'.observations
  · apply List.Subset.trans h.summaries h'.summaries
  · intro session hsession
    obtain ⟨next, hnext, hbecomes⟩ := h.sessions session hsession
    obtain ⟨later, hlater, hbecomes'⟩ := h'.sessions next hnext
    exact ⟨later, hlater, hbecomes'.origin.trans hbecomes.origin,
      fun hended => hbecomes'.ended (hbecomes.ended hended)⟩
  · intro hkept
    apply followed_added.trans _ _ _ (h.memories hkept) (h'.memories hkept)

/-- What is retained is still there. -/
theorem Retained.grown (h : Retained [] tables tables') (hmemories : kept → tables.Added tables') :
  Grown kept tables tables'
  := by
  constructor
  · apply h.observations.subset
  · apply h.summaries.subset
  · intro session hsession
    obtain ⟨later, hbecomes, hinitial⟩ := h.sessions
    obtain ⟨i, hi, rfl⟩ := List.getElem_of_mem hsession
    obtain ⟨hlength, hall⟩ := List.forall₂_iff_get.mp hbecomes
    have hlater : i < later.length := by
      rw [← hlength]
      apply hi
    exact ⟨later[i], hinitial.subset (List.getElem_mem hlater), hall i hi hlater⟩
  · apply hmemories

theorem followed_grown (kept : Prop) :
  Followed (Grown kept)
  := by
  apply followed_of_retained
  · intro tables tables' hretained hadded
    apply hretained.grown (fun _ => hadded)
  · intro tables tables' tables'' h h'
    apply h.trans h'

/-- Memories that need not stay may be deleted. -/
theorem allowsDeletion_grown (h : ¬ kept) :
  AllowsDeletion (Grown kept)
  := by
  intro id tables
  apply (Retained.refl.deleteMemory id).grown
  intro hkept
  cases h hkept

end MemoryTables

/-! ### What an answer promises -/

/-- The answer says that a row is there, and it is: with what the arguments gave for it.  A session
that was there before the call has ended after it. -/
def MemoryWrite.Recorded (kept : Prop) (before : MemoryTables) (args answer : Json)
    (tables : MemoryTables) : MemoryWrite → Prop
  | .saveMemory => kept → ∃ row ∈ tables.memories,
      answer = .object [("memory_id", .string row.id)]
      ∧ (args.index "project").asStr = some row.project
      ∧ (args.index "category").asStr = some row.category
  | .startSession => ∃ session ∈ tables.sessions,
      answer = .object [("session_id", .string session.id)]
      ∧ (args.index "project").asStr = some session.project
      ∧ (args.index "agent_type").asStr = some session.agentType
      ∧ (args.index "model").asStr = some session.model
  | .saveObservation => ∃ row ∈ tables.observations,
      answer = .object [("observation_id", .string row.id)]
      ∧ (args.index "session_id").asStr = some row.sessionId
      ∧ (args.index "observation_type").asStr = some row.observationType
      ∧ (args.index "content").asStr = some row.content
      ∧ row.context = some ((optionalStr args "context").getD "")
  | .endSession =>
      (∀ session ∈ before.sessions, (args.index "session_id").asStr = some session.id →
        ∃ later ∈ tables.sessions, session.Becomes later ∧ later.endedAt.isSome)
      ∧ ∀ summary, optionalStr args "summary" = some summary → summary ≠ "" →
        ∃ row ∈ tables.summaries, (args.index "session_id").asStr = some row.sessionId
          ∧ row.content = summary
  | .updateMemory => True
  | .deleteMemory => True

/-- What is recorded stays recorded. -/
theorem MemoryWrite.Recorded.grown {kept : Prop} {before tables tables' : MemoryTables}
    {args answer : Json} {tool : MemoryWrite} (h : tool.Recorded kept before args answer tables)
    (hgrown : tables.Grown kept tables') :
  tool.Recorded kept before args answer tables'
  := by
  cases tool with
  | saveMemory =>
      intro hkept
      obtain ⟨row, hrow, hanswer, hproject, hcategory⟩ := h hkept
      obtain ⟨later, hlater, horigin⟩ := List.mem_map.mp
        ((hgrown.memories hkept).subset (List.mem_map_of_mem hrow))
      obtain ⟨hid, hproject', hcategory', -⟩ : later.id = row.id ∧ later.project = row.project
          ∧ later.category = row.category ∧ later.createdAt = row.createdAt := by
        simpa [MemoryRow.origin] using horigin
      use later, hlater
      rw [hid, hproject', hcategory']
      exact ⟨hanswer, hproject, hcategory⟩
  | startSession =>
      obtain ⟨session, hsession, hanswer, hargs⟩ := h
      obtain ⟨later, hlater, hbecomes⟩ := hgrown.sessions session hsession
      obtain ⟨hid, hproject, -, hagent, hmodel⟩ : later.id = session.id
          ∧ later.project = session.project ∧ later.startedAt = session.startedAt
          ∧ later.agentType = session.agentType ∧ later.model = session.model := by
        simpa [SessionRow.origin] using hbecomes.origin
      use later, hlater
      rw [hid, hproject, hagent, hmodel]
      exact ⟨hanswer, hargs⟩
  | saveObservation =>
      obtain ⟨row, hrow, hargs⟩ := h
      exact ⟨row, hgrown.observations hrow, hargs⟩
  | endSession =>
      obtain ⟨hended, hsummary⟩ := h
      constructor
      · intro session hsession hid
        obtain ⟨next, hnext, hbecomes, hend⟩ := hended session hsession hid
        obtain ⟨later, hlater, hbecomes'⟩ := hgrown.sessions next hnext
        exact ⟨later, hlater, ⟨hbecomes'.origin.trans hbecomes.origin,
          fun h => hbecomes'.ended (hbecomes.ended h)⟩, hbecomes'.ended hend⟩
      · intro summary hargs hne
        obtain ⟨row, hrow, hcontent⟩ := hsummary summary hargs hne
        exact ⟨row, hgrown.summaries hrow, hcontent⟩
  | updateMemory => trivial
  | deleteMemory => trivial

/-! ### The tools -/

namespace MemoryM

open MemoryTables

section Tools

variable {F : Type} [SingleFloat F] {kept : Prop} {before : MemoryTables}

theorem ensuring_saveMemory (codec : TagCodec) (args : Json) (s : MemoryState) :
  Ensuring (Grown kept)
    (fun answer db => MemoryWrite.saveMemory.Recorded kept before args answer db.tables) s
    (MemoryTools.saveMemory F codec args)
  := by
  rw [MemoryTools.saveMemory_eq]
  apply ensuring_requiredStr_bind
  intro project hproject
  apply ensuring_requiredStr_bind
  intro category hcategory
  apply ensuring_requiredStr_bind
  intro content _
  have hsave : Ensuring (Grown kept) (fun id db => MemoryWrite.saveMemory.Recorded kept before
      args (MemoryTools.savedAnswer id) db.tables) s
      (MemoryStorage.saveMemory codec project category content (tagsOf args)) := by
    apply ensuring_insert (followed_grown kept)
    intro id now db db' hon _
    have htables := of_insertMemory (Connection.statement_on_eq_ok hon)
    refine ⟨savedRow codec id now project category content (tagsOf args), ?_, rfl, hproject,
      hcategory⟩
    rw [htables]
    apply List.mem_append_right _ List.mem_cons_self
  apply (hsave.named _).bind
  intro id s' hid
  -- the memory stays while its embedding is stored
  have hfollowed := followed_grown kept
  have hembedding : Follows (Grown kept)
      (MemoryTools.storeEmbedding id project ((vectorOf F args).getD [])) := by
    rw [MemoryTools.storeEmbedding]
    split
    · apply Program.Uses.ret
    · apply follows_uuid.bind
      intro embeddingId
      apply Program.Uses.map (follows_storeEmbedding hfollowed _)
  have hstays : ∀ tables tables', tables.Grown kept tables' →
      MemoryWrite.saveMemory.Recorded kept before args (MemoryTools.savedAnswer id) tables →
      MemoryWrite.saveMemory.Recorded kept before args (MemoryTools.savedAnswer id) tables' := by
    intro tables tables' hgrown h
    apply h.grown hgrown
  apply (hembedding.ensuring hfollowed hstays hid).bind
  intro _ s'' hid'
  apply ensuring_pure hid'

theorem ensuring_startSession (args : Json) (s : MemoryState) :
  Ensuring (Grown kept)
    (fun answer db => MemoryWrite.startSession.Recorded kept before args answer db.tables) s
    (MemoryTools.startSession args)
  := by
  apply ensuring_requiredStr_bind
  intro project hproject
  apply ensuring_requiredStr_bind
  intro agentType hagent
  apply ensuring_requiredStr_bind
  intro model hmodel
  apply Ensuring.answer
  apply ensuring_insert (followed_grown kept)
  intro id now db db' hon
  have hinsert := Connection.statement_on_eq_ok hon
  rw [MemoryTables.insertSession] at hinsert
  split at hinsert
  · cases hinsert
  · rw [← (Prod.mk.inj (Except.ok.inj hinsert)).2]
    exact ⟨_, List.mem_append_right _ List.mem_cons_self, rfl, hproject, hagent, hmodel⟩

theorem mem_of_insertObservation {row : ObservationRow} {tables tables' : MemoryTables}
    (h : tables.insertObservation row = .ok ((), tables')) :
  row ∈ tables'.observations
  := by
  rw [insertObservation] at h
  split at h
  · cases h
  · split at h
    · cases h
    · rw [← (Prod.mk.inj (Except.ok.inj h)).2]
      apply List.mem_append_right _ List.mem_cons_self

theorem mem_of_insertSummary {row : SummaryRow} {tables tables' : MemoryTables}
    (h : tables.insertSummary row = .ok ((), tables')) :
  row ∈ tables'.summaries ∧ tables'.sessions = tables.sessions
  := by
  rw [insertSummary] at h
  split at h
  · cases h
  · split at h
    · cases h
    · rw [← (Prod.mk.inj (Except.ok.inj h)).2]
      exact ⟨List.mem_append_right _ List.mem_cons_self, rfl⟩

theorem ensuring_saveObservation (args : Json) (s : MemoryState) :
  Ensuring (Grown kept)
    (fun answer db => MemoryWrite.saveObservation.Recorded kept before args answer db.tables) s
    (MemoryTools.saveObservation args)
  := by
  apply ensuring_requiredStr_bind
  intro sessionId hsession
  apply ensuring_requiredStr_bind
  intro observationType htype
  apply ensuring_requiredStr_bind
  intro content hcontent
  apply Ensuring.answer
  apply ensuring_insert (followed_grown kept)
  intro id now db db' hon
  obtain ⟨project, db₁, -, hon⟩ := Connection.bind_on_eq_ok.mp hon
  have hrow := mem_of_insertObservation (Connection.statement_on_eq_ok hon)
  exact ⟨_, hrow, rfl, hsession, htype, hcontent, rfl⟩

/-- A session that was there has ended. -/
theorem mem_endSession {now sessionId : String} {tables : MemoryTables} {session : SessionRow}
    (hsession : ∃ later ∈ tables.sessions, session.Becomes later) (hid : session.id = sessionId) :
  ∃ later ∈ (tables.endSession now sessionId).sessions,
    session.Becomes later ∧ later.endedAt.isSome
  := by
  obtain ⟨row, hrow, hbecomes⟩ := hsession
  have hrowid : row.id = sessionId := by
    rw [← hid]
    apply congrArg Prod.fst hbecomes.origin
  refine ⟨{ row with endedAt := some now, updatedAt := some now }, ?_,
    ⟨hbecomes.origin, fun _ => rfl⟩, rfl⟩
  apply List.mem_map.mpr
  use row, hrow
  rw [if_pos hrowid]

theorem ensuring_endSession (args : Json) {s : MemoryState}
    (hs : before.Grown kept s.db.tables) :
  Ensuring (Grown kept)
    (fun answer db => MemoryWrite.endSession.Recorded kept before args answer db.tables) s
    (MemoryTools.endSession args)
  := by
  apply ensuring_requiredStr_bind
  intro sessionId hsession
  apply Ensuring.answer
  apply ensuring_now_bind (followed_grown kept)
  intro now s₁ hs₁
  split
  case isTrue hempty =>
      apply ensuring_withConnection
      intro db db' _ hdb hon
      rw [Connection.execute_on_eq_ok hon]
      constructor
      · intro session hmem hid
        apply mem_endSession (((hs.trans hs₁).trans hdb.tables).sessions session hmem)
        apply Option.some.inj (hid.symm.trans hsession)
      · intro summary hsummary hne
        rw [hsummary] at hempty
        cases hne hempty
  case isFalse hsome =>
      apply ensuring_uuid_bind (followed_grown kept)
      intro summaryId s₂ hs₂
      apply ensuring_withConnection
      intro db db' _ hdb hon
      obtain ⟨_, db₁, hend, hon⟩ := Connection.bind_on_eq_ok.mp hon
      obtain ⟨project, db₂, hselect, hon⟩ := Connection.bind_on_eq_ok.mp hon
      obtain ⟨hrow, hsessions⟩ := mem_of_insertSummary (Connection.statement_on_eq_ok hon)
      have htables := (Connection.tables_of_select hselect).trans (Connection.execute_on_eq_ok hend)
      constructor
      · intro session hmem hid
        rw [hsessions, htables]
        apply mem_endSession ((((hs.trans hs₁).trans hs₂).trans hdb.tables).sessions session hmem)
        apply Option.some.inj (hid.symm.trans hsession)
      · intro summary hsummary _
        refine ⟨_, hrow, hsession, ?_⟩
        rw [hsummary]
        rfl

/-- What a tool that writes answers is recorded when it answers. -/
theorem ensuring_write (codec : TagCodec) (tool : MemoryWrite) (args : Json) {s : MemoryState}
    (hs : before.Grown kept s.db.tables) :
  Ensuring (Grown kept) (fun answer db => tool.Recorded kept before args answer db.tables) s
    (tool.handler F codec args)
  := by
  cases tool with
  | saveMemory => apply ensuring_saveMemory
  | startSession => apply ensuring_startSession
  | saveObservation => apply ensuring_saveObservation
  | endSession => apply ensuring_endSession args hs
  | updateMemory => apply Program.ensures_of_forall (fun _ _ _ _ => trivial)
  | deleteMemory => apply Program.ensures_of_forall (fun _ _ _ _ => trivial)

end Tools

end MemoryM

/-! ### Runs -/

namespace MemoryCall

/-- What a call that writes answers is recorded; the others promise nothing. -/
def Recorded (kept : Prop) (before : MemoryTables) (answer : Json) (tables : MemoryTables) :
    MemoryCall → Prop
  | .write tool args => tool.Recorded kept before args answer tables
  | .read _ _ => True
  | .getMemory _ => True

theorem Recorded.grown {kept : Prop} {before tables tables' : MemoryTables} {answer : Json}
    {call : MemoryCall} (h : call.Recorded kept before answer tables)
    (hgrown : tables.Grown kept tables') :
  call.Recorded kept before answer tables'
  := by
  cases call with
  | write tool args => apply MemoryWrite.Recorded.grown h hgrown
  | read tool args => trivial
  | getMemory args => trivial

variable {F : Type} [SingleFloat F] {sorting : SortBy} {orders : Orders F} {codec : TagCodec}

/-- What a call answers is recorded when it answers. -/
theorem ensuring_program {kept : Prop} (s : MemoryState) (call : MemoryCall) :
  MemoryM.Ensuring (MemoryTables.Grown kept)
    (fun answer db => call.Recorded kept s.db.tables answer db.tables) s
    (call.program sorting orders codec)
  := by
  cases call with
  | write tool args =>
      apply MemoryM.ensuring_write codec tool args ((MemoryTables.followed_grown kept).refl _)
  | read tool args => apply Program.ensures_of_forall (fun _ _ _ _ => trivial)
  | getMemory args => apply Program.ensures_of_forall (fun _ _ _ _ => trivial)

/-- What a call has answered is recorded at the end of a run. -/
theorem recorded_of_run {calls : List MemoryCall} {s : MemoryState} {c : MemoryPool}
    (h : Pool.Run MemoryOp.Step Pool.anyStep ⟨s, calls.map (program sorting orders codec)⟩ c)
    {i : ℕ} {call : MemoryCall} {answer : Json} (hcall : calls[i]? = some call)
    (hreturned : c.threads[i]? = some (.ret (.ok answer))) :
  call.Recorded (∀ args, .write .deleteMemory args ∉ calls) s.db.tables answer c.state.db.tables
  := by
  let kept := ∀ args, MemoryCall.write .deleteMemory args ∉ calls
  have hdelete : ∀ args, MemoryCall.write .deleteMemory args ∈ calls →
      MemoryTables.AllowsDeletion (MemoryTables.Grown kept) := by
    intro args hmem
    apply MemoryTables.allowsDeletion_grown
    intro hkept
    apply hkept args hmem
  apply of_run (MemoryTables.followed_grown kept) hdelete
    (Q := fun call answer db => call.Recorded kept s.db.tables answer db.tables) _ _ h hcall
    hreturned
  · intro call answer db db' hmoved hrecorded
    apply hrecorded.grown hmoved.tables
  · intro call _
    apply call.ensuring_program s

end MemoryCall

/-- Whatever tools run at once, and whichever of their statements fail, what a call that has
answered said to have saved is in the tables at the end; so are memories, unless one of the calls
deletes some. -/
theorem acknowledged_stays {F : Type} [SingleFloat F] {sorting : SortBy} {orders : Orders F}
    {codec : TagCodec} {calls : List MemoryCall} {s : MemoryState} {c : MemoryPool}
    (h : Pool.Run MemoryOp.Step Pool.anyStep
      ⟨s, calls.map (MemoryCall.program sorting orders codec)⟩ c) :
  ∀ (i : ℕ) (tool : MemoryWrite) (args answer : Json), calls[i]? = some (.write tool args) →
    c.threads[i]? = some (.ret (.ok answer)) →
    tool.Recorded (∀ args, MemoryCall.write .deleteMemory args ∉ calls) s.db.tables args answer
      c.state.db.tables
  := by
  intro i tool args answer hcall hreturned
  apply MemoryCall.recorded_of_run h hcall hreturned

/-- The note that was saved while it was asked for is there. -/
theorem acknowledged_note :
  ∃ c : MemoryPool, Pool.Run MemoryOp.Step Pool.anyStep
      ⟨noteState [] [] [], saveAndGet.map (MemoryCall.program SortBy.merge insertedOrders noTags)⟩ c
    ∧ c.threads[0]? = some (.ret (.ok (MemoryTools.savedAnswer "m1")))
    ∧ ∃ row ∈ c.state.db.tables.memories, MemoryTools.savedAnswer "m1"
        = .object [("memory_id", .string row.id)]
      ∧ some "alpha" = some row.project ∧ some "notes" = some row.category
  := by
  have hstart : Pool.Run MemoryOp.Step Pool.anyStep
      ⟨noteState [] [] [], saveAndGet.map (MemoryCall.program SortBy.merge insertedOrders noTags)⟩
      ⟨noteState [] [] [], saveAndGet.map (MemoryCall.program SortBy.merge insertedOrders noTags)⟩
    := Pool.Run.refl
  have hrun := hstart.next 0 _ rfl trivial (step_uuid "m1" List.not_mem_nil) rfl
  replace hrun := hrun.next 1 _ rfl trivial (step_query rfl) rfl
  replace hrun := hrun.next 0 _ rfl trivial (step_now "") rfl
  replace hrun := hrun.next 0 _ rfl trivial step_insert rfl
  have hnone : ∀ args, MemoryCall.write .deleteMemory args ∉ saveAndGet := by
    intro args hmem
    rcases List.mem_cons.mp hmem with heq | hmem
    · cases heq
    · cases List.mem_singleton.mp hmem
  let results : List (Except String Json) :=
    [.ok (MemoryTools.savedAnswer "m1"), .ok (.object [("memory", .null)])]
  use ⟨noteState [noteRow "m1" "alpha" "first"] [] ["m1"], results.map .ret⟩, hrun, rfl
  exact acknowledged_stays hrun 0 .saveMemory (noteArgs "alpha" "first") _ rfl rfl hnone

end OrchestraRag
