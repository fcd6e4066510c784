import OrchestraRag.Memory.Failure

/-!
# Orphan embeddings

Calls of `save_memory` and `delete_memory` that run at once interleave at the steps of
`MemoryOp`.  A deletion is about to remove the embeddings of its memory until it has done so
(`Unlinks`).  As long as every embedding is stored while its memory exists, or while such a
deletion is still to come, no embedding is left without its memory when all calls have returned
(`linked_of_run`).

An embedding stored after its memory was deleted breaks this (`not_linked_save_delete`).
-/

namespace OrchestraRag

open Sql

/-- The programs of the calls that are running. -/
abbrev MemoryThread : Type 1 :=
  Program MemoryOp MemoryAns (Except String Json)

abbrev MemoryPool : Type 1 :=
  Pool MemoryOp MemoryAns (Except String Json) MemoryState

/-- Every embedding of a memory is of one that exists. -/
def MemoryTables.Linked (tables : MemoryTables) : Prop :=
  ∀ e ∈ tables.embeddings, e.entityType = "memory" → e.entityId ∈ tables.memories.map MemoryRow.id

/-! ### Calls -/

/-- A call of one of the two tools. -/
inductive LinkCall where
  | save (args : Json)
  | delete (args : Json)

def LinkCall.program (F : Type) [SingleFloat F] (codec : TagCodec) : LinkCall → MemoryThread
  | .save args => (MemoryTools.saveMemory F codec args).run
  | .delete args => (MemoryTools.deleteMemory args).run

namespace MemoryThread

/-- A deletion that has deleted the memory. -/
def unlinking (id : String) : MemoryThread :=
  .step (.connection (Connection.execute (MemoryTables.deleteEmbeddings "memory" id)))
    (fun deleted : Except String Unit => match deleted with
      | .ok () => .ret (.ok success)
      | .error e => .ret (.error ("delete embedding failed: " ++ ("SQLite error: " ++ e))))

/-- A deletion that has not begun. -/
def deleting (id : String) : MemoryThread :=
  .step (.connection (Connection.execute (MemoryTables.deleteMemory id)))
    (fun deleted : Except String Unit => match deleted with
      | .ok () => unlinking id
      | .error e => .ret (.error ("delete_memory failed: " ++ ("SQLite error: " ++ e))))

/-- The program is about to delete the embeddings of a memory. -/
def Unlinks (id : String) (t : MemoryThread) : Prop :=
  t = deleting id ∨ t = unlinking id

/-- A step of a save: it adds rows. -/
inductive Adds : MemoryOp → Prop
  | uuid : Adds .uuid
  | now : Adds .now
  | memory (row : MemoryRow) :
      Adds (.connection (Connection.statement (MemoryTables.insertMemory row)))
  | embedding (e : EmbeddingRow) :
      Adds (.connection (Connection.execute (MemoryTables.replaceEmbedding e)))

end MemoryThread

open MemoryThread

/-- A call of `deleteMemory` is a deletion, or fails at once. -/
theorem run_deleteMemory (args : Json) :
  (∃ id, (MemoryTools.deleteMemory args).run = deleting id)
    ∨ ∃ e, (MemoryTools.deleteMemory args).run = .ret (.error e)
  := by
  cases hid : (args.index "memory_id").asStr with
  | none =>
      apply Or.inr
      have hrequired : requiredStr args "memory_id"
          = ExceptT.mk (pure (required "memory_id" none)) := by
        rw [requiredStr, hid]
      rw [MemoryTools.deleteMemory, hrequired]
      exact ⟨_, rfl⟩
  | some id =>
      apply Or.inl
      use id
      have hrequired : requiredStr args "memory_id" = ExceptT.mk (pure (.ok id)) := by
        rw [requiredStr, hid]
        rfl
      rw [MemoryTools.deleteMemory, hrequired]
      apply congrArg (Program.step _)
      funext deleted
      cases deleted with
      | error e => rfl
      | ok _ =>
          apply congrArg (Program.step _)
          funext unlinked
          cases unlinked with
          | error e => rfl
          | ok _ => rfl

section Save

variable {F : Type} [SingleFloat F] {codec : TagCodec}

theorem adds_withConnection {α : Type} {c : Connection MemoryTables α}
    (h : Adds (.connection c)) :
  (MemoryM.withConnection c).run.Uses Adds
  := by
  have hcall : (Program.call (MemoryOp.connection c) : Program MemoryOp MemoryAns _).Uses Adds :=
    Program.uses_call h
  apply hcall.map

/-- A call of `saveMemory` only adds rows. -/
theorem adds_saveMemory (args : Json) :
  (MemoryTools.saveMemory F codec args).run.Uses Adds
  := by
  have huuid : MemoryM.uuid.run.Uses Adds := (Program.uses_call Adds.uuid).map _
  have hnow : MemoryM.now.run.Uses Adds := (Program.uses_call Adds.now).map _
  apply (compositional_uses Adds).saveMemory _ huuid
  · intro embedding
    apply adds_withConnection (Adds.embedding _)
  · intro project category content tags
    apply Program.uses_fallible_bind huuid
    intro id
    apply Program.uses_fallible_bind hnow
    intro now
    apply Program.uses_fallible_bind (adds_withConnection (Adds.memory _))
    intro _
    apply Program.Uses.ret

end Save

/-! ### Runs -/

/-- A step stores the embedding of a memory only while the memory exists, or while a deletion of
it is about to remove its embeddings. -/
def StoresLinked (i : ℕ) (c : MemoryPool) : Prop :=
  ∀ e k, c.threads[i]?
      = some (.step (.connection (Connection.execute (MemoryTables.replaceEmbedding e))) k) →
    e.entityType = "memory" →
    e.entityId ∈ c.state.db.tables.memories.map MemoryRow.id
      ∨ ∃ t ∈ c.threads, Unlinks e.entityId t

/-- The programs are saves and deletions, and every embedding of a memory is of one that exists,
or a deletion is about to remove it. -/
structure LinkedOrUnlinked (c : MemoryPool) : Prop where
  reliable : c.state.db.Reliable
  calls : ∀ t ∈ c.threads, Program.Uses Adds t ∨ ∃ id, Unlinks id t
  linked : ∀ e ∈ c.state.db.tables.embeddings, e.entityType = "memory" →
    e.entityId ∈ c.state.db.tables.memories.map MemoryRow.id
      ∨ ∃ t ∈ c.threads, Unlinks e.entityId t

section Step

variable {s s' : MemoryState} {op : MemoryOp} {k : MemoryAns op → MemoryThread} {x : MemoryAns op}
  {id : String}

/-- A step of a deletion: the memory is deleted and the deletion goes on, or the embeddings are
deleted and it returns. -/
theorem of_unlinks_step (h : Unlinks id (.step op k)) (hs : s.db.Reliable)
    (hstep : MemoryOp.Step op s x s') :
  s'.db.Reliable
    ∧ (s'.db.tables = s.db.tables.deleteMemory id ∧ k x = unlinking id
      ∨ s'.db.tables = s.db.tables.deleteEmbeddings "memory" id ∧ ∃ r, k x = .ret r)
  := by
  rcases h with h | h
  · cases h
    have hon := Connection.execute_on_ok (f := MemoryTables.deleteMemory id) hs.nextFault
    obtain ⟨rfl, hdb⟩ := Prod.mk.inj (hon.symm.trans hstep.1)
    rw [← hdb]
    exact ⟨hs.after _, Or.inl ⟨rfl, rfl⟩⟩
  · cases h
    have hon := Connection.execute_on_ok (f := MemoryTables.deleteEmbeddings "memory" id)
      hs.nextFault
    obtain ⟨rfl, hdb⟩ := Prod.mk.inj (hon.symm.trans hstep.1)
    rw [← hdb]
    exact ⟨hs.after _, Or.inr ⟨rfl, _, rfl⟩⟩

/-- A step of a save: memories stay, and an embedding is stored by a step that does so. -/
theorem of_adds_step (h : Adds op) (hs : s.db.Reliable) (hstep : MemoryOp.Step op s x s') :
  s'.db.Reliable ∧ s.db.tables.memories ⊆ s'.db.tables.memories
    ∧ ∀ e ∈ s'.db.tables.embeddings, e ∈ s.db.tables.embeddings
      ∨ op = .connection (Connection.execute (MemoryTables.replaceEmbedding e))
  := by
  cases h with
  | uuid =>
      obtain ⟨-, rfl⟩ := hstep
      exact ⟨hs, List.Subset.refl _, fun e he => Or.inl he⟩
  | now =>
      obtain rfl := hstep
      exact ⟨hs, List.Subset.refl _, fun e he => Or.inl he⟩
  | memory row =>
      have hon := Connection.statement_on (f := MemoryTables.insertMemory row) hs.nextFault
      rcases hinsert : s.db.tables.insertMemory row with e | ⟨_, tables⟩
      · rw [hinsert] at hon
        obtain ⟨rfl, hdb⟩ := Prod.mk.inj (hon.symm.trans hstep.1)
        rw [← hdb]
        exact ⟨hs.after _, List.Subset.refl _, fun e he => Or.inl he⟩
      · obtain rfl := MemoryTables.of_insertMemory hinsert
        rw [hinsert] at hon
        obtain ⟨rfl, hdb⟩ := Prod.mk.inj (hon.symm.trans hstep.1)
        rw [← hdb]
        exact ⟨hs.after _, List.subset_append_left _ _, fun e he => Or.inl he⟩
  | embedding e =>
      have hon := Connection.execute_on_ok (f := MemoryTables.replaceEmbedding e) hs.nextFault
      obtain ⟨rfl, hdb⟩ := Prod.mk.inj (hon.symm.trans hstep.1)
      rw [← hdb]
      refine ⟨hs.after _, List.Subset.refl _, ?_⟩
      intro e' he'
      rcases List.mem_append.mp he' with he' | he'
      · apply Or.inl (List.mem_of_mem_filter he')
      · obtain rfl := List.mem_singleton.mp he'
        apply Or.inr rfl

end Step

section Deletion

variable {i : ℕ} {c c' : MemoryPool} {op : MemoryOp} {k : MemoryAns op → MemoryThread}
  {x : MemoryAns op} {id : String}

/-- After a step of a deletion, each embedding of a memory is still of one that exists, or of one
whose embeddings a deletion is about to remove. -/
theorem LinkedOrUnlinked.linked_of_unlinks (h : LinkedOrUnlinked c)
    (hi : c.threads[i]? = some (.step op k)) (hR : MemoryOp.Step op c.state x c'.state)
    (hthreads : c'.threads = c.threads.set i (k x)) (hunlinks : Unlinks id (.step op k))
    {e : EmbeddingRow} (he : e ∈ c'.state.db.tables.embeddings) (htype : e.entityType = "memory") :
  e.entityId ∈ c'.state.db.tables.memories.map MemoryRow.id
    ∨ ∃ t ∈ c'.threads, Unlinks e.entityId t
  := by
  have hnext : k x ∈ c'.threads := by
    rw [hthreads]
    obtain ⟨hlt, -⟩ := List.getElem?_eq_some_iff.mp hi
    apply List.mem_set hlt
  -- a deletion stays in the pool, or it is the one that steps
  have hothers : ∀ {t : MemoryThread}, t ∈ c.threads → t ∈ c'.threads ∨ t = .step op k := by
    intro t ht
    by_cases hne : t = .step op k
    · apply Or.inr hne
    · rw [hthreads]
      apply Or.inl (Pool.mem_set_of_ne _ ht hi hne)
  have hembeddings : c'.state.db.tables.embeddings ⊆ c.state.db.tables.embeddings := by
    rcases (of_unlinks_step hunlinks h.reliable hR).2 with ⟨htables, -⟩ | ⟨htables, -⟩
    · rw [htables]
      apply List.Subset.refl
    · rw [htables]
      apply List.filter_sublist.subset
  rcases h.linked e (hembeddings he) htype with hrow | ⟨t, ht, hlink⟩
  · rcases (of_unlinks_step hunlinks h.reliable hR).2 with ⟨htables, hk⟩ | ⟨htables, -⟩
    · by_cases hid : e.entityId = id
      · rw [hk, ← hid] at hnext
        exact Or.inr ⟨_, hnext, Or.inr rfl⟩
      · apply Or.inl
        rw [htables]
        obtain ⟨row, hmem, hrowid⟩ := List.mem_map.mp hrow
        apply List.mem_map.mpr
        use row, List.mem_filter.mpr ⟨hmem, decide_eq_true (hrowid ▸ hid)⟩
    · apply Or.inl
      rw [htables]
      apply hrow
  · rcases hothers ht with ht | rfl
    · exact Or.inr ⟨t, ht, hlink⟩
    · rcases (of_unlinks_step hlink h.reliable hR).2 with ⟨-, hk⟩ | ⟨htables, -⟩
      · rw [hk] at hnext
        exact Or.inr ⟨_, hnext, Or.inr rfl⟩
      · rw [htables] at he
        have hgone := of_decide_eq_true (List.mem_filter.mp he).2
        cases hgone ⟨htype, rfl⟩

/-- A step of a deletion keeps the invariant. -/
theorem LinkedOrUnlinked.of_unlinks (h : LinkedOrUnlinked c)
    (hi : c.threads[i]? = some (.step op k)) (hR : MemoryOp.Step op c.state x c'.state)
    (hthreads : c'.threads = c.threads.set i (k x)) (hunlinks : Unlinks id (.step op k)) :
  LinkedOrUnlinked c'
  := by
  constructor
  · apply (of_unlinks_step hunlinks h.reliable hR).1
  · intro t ht
    rw [hthreads] at ht
    rcases List.mem_or_eq_of_mem_set ht with ht | rfl
    · apply h.calls t ht
    · rcases (of_unlinks_step hunlinks h.reliable hR).2 with ⟨-, hk⟩ | ⟨-, r, hk⟩
      · exact Or.inr ⟨id, Or.inr hk⟩
      · rw [hk]
        exact Or.inl Program.Uses.ret
  · intro e he htype
    apply h.linked_of_unlinks hi hR hthreads hunlinks he htype

end Deletion

/-- A step of a save keeps the invariant when it stores the embedding of a linked memory. -/
theorem LinkedOrUnlinked.of_adds {i : ℕ} {c c' : MemoryPool} (h : LinkedOrUnlinked c)
    {op : MemoryOp} {k : MemoryAns op → MemoryThread} {x : MemoryAns op}
    (hi : c.threads[i]? = some (.step op k)) (hR : MemoryOp.Step op c.state x c'.state)
    (hthreads : c'.threads = c.threads.set i (k x)) (hadds : Program.Uses Adds (.step op k))
    (hnot : ∀ id, ¬ Unlinks id (.step op k)) (hstores : StoresLinked i c) :
  LinkedOrUnlinked c'
  := by
  obtain ⟨hop, hk⟩ : Adds op ∧ ∀ x, Program.Uses Adds (k x) := by
    cases hadds with
    | step hop hk => exact ⟨hop, hk⟩
  obtain ⟨hreliable, hmemories, hembeddings⟩ := of_adds_step hop h.reliable hR
  have hlinked : ∀ e : EmbeddingRow,
      (e.entityId ∈ c.state.db.tables.memories.map MemoryRow.id
        ∨ ∃ t ∈ c.threads, Unlinks e.entityId t) →
      e.entityId ∈ c'.state.db.tables.memories.map MemoryRow.id
        ∨ ∃ t ∈ c'.threads, Unlinks e.entityId t := by
    rintro e (hrow | ⟨t, ht, hlink⟩)
    · apply Or.inl (List.map_subset _ hmemories hrow)
    · apply Or.inr
      use t
      constructor
      · rw [hthreads]
        apply Pool.mem_set_of_ne _ ht hi
        rintro rfl
        apply hnot _ hlink
      · apply hlink
  constructor
  · apply hreliable
  · intro t ht
    rw [hthreads] at ht
    rcases List.mem_or_eq_of_mem_set ht with ht | rfl
    · apply h.calls t ht
    · apply Or.inl (hk x)
  · intro e he htype
    apply hlinked
    rcases hembeddings e he with he | rfl
    · apply h.linked e he htype
    · apply hstores e k hi htype

/-- In every run whose saves store embeddings of linked memories, every embedding of a memory is
of one that exists once all calls have returned. -/
theorem linked_of_run {F : Type} [SingleFloat F] {codec : TagCodec} {s : MemoryState}
    {calls : List LinkCall} {c : MemoryPool} (hreliable : s.db.Reliable)
    (hlinked : s.db.tables.Linked)
    (hrun : Pool.Run MemoryOp.Step StoresLinked ⟨s, calls.map (LinkCall.program F codec)⟩ c)
    (hreturned : c.Returned) :
  c.state.db.tables.Linked
  := by
  have hstart : LinkedOrUnlinked ⟨s, calls.map (LinkCall.program F codec)⟩ := by
    constructor
    · apply hreliable
    · intro t ht
      obtain ⟨call, -, rfl⟩ := List.mem_map.mp ht
      cases call with
      | save args => apply Or.inl (adds_saveMemory args)
      | delete args =>
          rcases run_deleteMemory args with ⟨id, hdelete⟩ | ⟨e, hdelete⟩
          · exact Or.inr ⟨id, Or.inl hdelete⟩
          · apply Or.inl
            rw [LinkCall.program, hdelete]
            apply Program.Uses.ret
    · intro e he htype
      apply Or.inl (hlinked e he htype)
  have hend : LinkedOrUnlinked c := by
    apply hrun.invariant _ hstart
    intro i c c' h hstores hstep
    obtain ⟨op, k, x, hi, hR, hthreads⟩ := (Pool.step_iff MemoryOp.Step).mp hstep
    by_cases hunlinks : ∃ id, Unlinks id (.step op k)
    · obtain ⟨id, hunlinks⟩ := hunlinks
      apply h.of_unlinks hi hR hthreads hunlinks
    · rcases h.calls _ (List.mem_of_getElem? hi) with hadds | hdeletes
      · apply h.of_adds hi hR hthreads hadds (not_exists.mp hunlinks) hstores
      · cases hunlinks hdeletes
  intro e he htype
  rcases hend.linked e he htype with hrow | ⟨t, ht, hlink⟩
  · apply hrow
  · obtain ⟨r, rfl⟩ := hreturned t ht
    rcases hlink with hlink | hlink
    · cases hlink
    · cases hlink

/-! ### A note saved and deleted at once -/

section Note

/-- A note is saved with a vector, and a memory is deleted. -/
def saveAndDelete : List LinkCall :=
  [.save (vectorArgs "alpha" "first" [⟨0x3ff0000000000000⟩]),
    .delete (.object [("memory_id", .string "m1")])]

/-- The embedding of the note. -/
def noteEmbedding : EmbeddingRow :=
  (MemoryTools.memoryEmbedding "e1" "m1" "alpha"
    ((vectorOf F32 (vectorArgs "alpha" "first" [⟨0x3ff0000000000000⟩])).getD [])).row

variable {memories : List MemoryRow} {embeddings : List EmbeddingRow} {issued : List String}

/-- Any id that was not issued may be the next one. -/
theorem step_uuid {s : MemoryState} (id : String) (h : id ∉ s.issued) :
  MemoryOp.Step .uuid s id { s with issued := id :: s.issued }
  := ⟨h, rfl⟩

/-- The clock may show any time. -/
theorem step_now {s : MemoryState} (time : String) :
  MemoryOp.Step .now s time s
  := rfl

theorem step_insert :
  MemoryOp.Step (.connection (Connection.statement
      (MemoryTables.insertMemory (noteRow "m1" "alpha" "first"))))
    (noteState [] [] issued) (Except.ok () : Except String Unit)
    (noteState [noteRow "m1" "alpha" "first"] [] issued)
  := ⟨rfl, rfl⟩

theorem step_store :
  MemoryOp.Step (.connection (Connection.execute (MemoryTables.replaceEmbedding noteEmbedding)))
    (noteState memories [] issued) (Except.ok () : Except String Unit)
    (noteState memories [noteEmbedding] issued)
  := ⟨rfl, rfl⟩

theorem step_deleteMemory :
  MemoryOp.Step (.connection (Connection.execute (MemoryTables.deleteMemory "m1")))
    (noteState [noteRow "m1" "alpha" "first"] embeddings issued)
    (Except.ok () : Except String Unit) (noteState [] embeddings issued)
  := ⟨rfl, rfl⟩

theorem step_deleteEmbeddings (h : embeddings = [] ∨ embeddings = [noteEmbedding]) :
  MemoryOp.Step (.connection (Connection.execute (MemoryTables.deleteEmbeddings "memory" "m1")))
    (noteState [] embeddings issued) (Except.ok () : Except String Unit) (noteState [] [] issued)
  := by
  rcases h with rfl | rfl
  · exact ⟨rfl, rfl⟩
  · exact ⟨rfl, rfl⟩

end Note

/-- The note is deleted before its embedding is stored. -/
theorem not_linked_save_delete :
  ∃ c : MemoryPool, Pool.Run MemoryOp.Step Pool.anyStep
      ⟨noteState [] [] [], saveAndDelete.map (LinkCall.program F32 noTags)⟩ c
    ∧ c.Returned ∧ c.state.db.tables.memories = []
    ∧ c.state.db.tables.embeddings = [noteEmbedding]
    ∧ ¬ c.state.db.tables.Linked
  := by
  have hnew : "e1" ∉ ["m1"] := by decide
  have hstart : Pool.Run MemoryOp.Step Pool.anyStep
      ⟨noteState [] [] [], saveAndDelete.map (LinkCall.program F32 noTags)⟩
      ⟨noteState [] [] [], saveAndDelete.map (LinkCall.program F32 noTags)⟩ := Pool.Run.refl
  have hrun := hstart.next 0 _ rfl trivial (step_uuid "m1" List.not_mem_nil) rfl
  replace hrun := hrun.next 0 _ rfl trivial (step_now "") rfl
  replace hrun := hrun.next 0 _ rfl trivial step_insert rfl
  replace hrun := hrun.next 1 _ rfl trivial step_deleteMemory rfl
  replace hrun := hrun.next 1 _ rfl trivial (step_deleteEmbeddings (Or.inl rfl)) rfl
  replace hrun := hrun.next 0 _ rfl trivial (step_uuid "e1" hnew) rfl
  replace hrun := hrun.next 0 _ rfl trivial step_store rfl
  let results : List (Except String Json) := [.ok (MemoryTools.savedAnswer "m1"), .ok success]
  use ⟨noteState [] [noteEmbedding] ["e1", "m1"], results.map .ret⟩, hrun
  use Pool.returned_map_ret _ results
  refine ⟨rfl, rfl, ?_⟩
  intro hlinked
  cases hlinked noteEmbedding List.mem_cons_self rfl

/-- The statement of a step stores at most the embedding that it leaves in empty tables. -/
theorem storesLinked_of_connection {i : ℕ} {c : MemoryPool} {conn : Connection MemoryTables Unit}
    {k : Except String Unit → MemoryThread}
    (hi : c.threads[i]? = some (.step (.connection conn) k))
    (h : ∀ e ∈ (conn.on ⟨MemoryTables.empty, []⟩).2.tables.embeddings,
      e.entityId ∈ c.state.db.tables.memories.map MemoryRow.id) :
  StoresLinked i c
  := by
  intro e k' hi' _
  obtain ⟨hop, -⟩ := Program.step.inj (Option.some.inj (hi.symm.trans hi'))
  have hconn : conn = Connection.execute (MemoryTables.replaceEmbedding e) :=
    eq_of_heq (MemoryOp.connection.inj hop).2
  apply Or.inl
  apply h
  rw [hconn]
  apply List.mem_cons_self

/-- The note is deleted after its embedding was stored. -/
theorem linked_save_delete :
  ∃ c : MemoryPool, Pool.Run MemoryOp.Step StoresLinked
      ⟨noteState [] [] [], saveAndDelete.map (LinkCall.program F32 noTags)⟩ c
    ∧ c.Returned ∧ c.state.db.tables.Linked
  := by
  have hnew : "e1" ∉ ["m1"] := by decide
  have hnone : ∀ {ids : List String}, ∀ e ∈ ([] : List EmbeddingRow), e.entityId ∈ ids := by
    rintro ids e ⟨⟩
  have hnote : ∀ e ∈ [noteEmbedding],
      e.entityId ∈ [noteRow "m1" "alpha" "first"].map MemoryRow.id := by
    intro e he
    obtain rfl := List.mem_singleton.mp he
    apply List.mem_cons_self
  have hidle : ∀ {i : ℕ} {c : MemoryPool} {op : MemoryOp} {k : MemoryAns op → MemoryThread},
      c.threads[i]? = some (.step op k) → op = .uuid ∨ op = .now → StoresLinked i c := by
    intro i c op k hi hop e k' hi' _
    obtain ⟨rfl, -⟩ := Program.step.inj (Option.some.inj (hi.symm.trans hi'))
    rcases hop with hop | hop
    · cases hop
    · cases hop
  have hstart : Pool.Run MemoryOp.Step StoresLinked
      ⟨noteState [] [] [], saveAndDelete.map (LinkCall.program F32 noTags)⟩
      ⟨noteState [] [] [], saveAndDelete.map (LinkCall.program F32 noTags)⟩ := Pool.Run.refl
  have hrun := hstart.next 0 _ rfl (hidle rfl (Or.inl rfl))
    (step_uuid "m1" List.not_mem_nil) rfl
  replace hrun := hrun.next 0 _ rfl (hidle rfl (Or.inr rfl)) (step_now "") rfl
  replace hrun := hrun.next 0 _ rfl (storesLinked_of_connection rfl hnone) step_insert rfl
  replace hrun := hrun.next 0 _ rfl (hidle rfl (Or.inl rfl)) (step_uuid "e1" hnew) rfl
  replace hrun := hrun.next 0 _ rfl (storesLinked_of_connection rfl hnote) step_store rfl
  replace hrun := hrun.next 1 _ rfl (storesLinked_of_connection rfl hnone) step_deleteMemory rfl
  replace hrun := hrun.next 1 _ rfl (storesLinked_of_connection rfl hnone)
    (step_deleteEmbeddings (Or.inr rfl)) rfl
  let results : List (Except String Json) := [.ok (MemoryTools.savedAnswer "m1"), .ok success]
  let c : MemoryPool := ⟨noteState [] [] ["e1", "m1"], results.map .ret⟩
  have hreturned : c.Returned := Pool.returned_map_ret _ results
  have hreliable : (noteState [] [] []).db.Reliable := rfl
  have hlinked : (noteState [] [] []).db.tables.Linked := by
    rintro e ⟨⟩
  use c, hrun, hreturned
  apply linked_of_run hreliable hlinked (c := c) hrun hreturned

end OrchestraRag
