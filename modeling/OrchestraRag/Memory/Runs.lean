import OrchestraRag.Memory.Tools

/-!
# Runs of the memory calls

What each step of a program on the memory tables does, and from it each call that writes,
whether its statements fail or not: a call that is one statement makes its change and succeeds,
or leaves the tables and fails.  A property that sequences of programs inherit holds of the tools
when it holds of their calls (`Compositional`).
-/

namespace OrchestraRag

open Sql

namespace MemoryM

variable {α β : Type} {program : MemoryM α} {f : α → MemoryM β} {s s' s'' : MemoryState}

/-! ### Steps -/

theorem runs_bind {r : Except String β} :
  (program >>= f).Runs s r s'' ↔
    (∃ a s', program.Runs s (.ok a) s' ∧ (f a).Runs s' r s'')
      ∨ ∃ e, r = .error e ∧ program.Runs s (.error e) s''
  := Program.exec_fallible_bind

theorem runs_pure {a : α} {r : Except String α} :
  (pure a : MemoryM α).Runs s r s' ↔ r = .ok a ∧ s' = s
  := Program.exec_ret

theorem runs_uuid {r : Except String String} :
  uuid.Runs s r s' ↔ ∃ id, id ∉ s.issued ∧ r = .ok id ∧ s' = { s with issued := id :: s.issued }
  := by
  have hlift : uuid.Runs s r s'
      ↔ ∃ id, Program.Exec MemoryOp.Step (Program.call MemoryOp.uuid) s id s' ∧ r = .ok id :=
    Program.exec_map
  rw [hlift]
  constructor
  · rintro ⟨id, hcall, hr⟩
    obtain ⟨hid, hs'⟩ := Program.exec_call.mp hcall
    use id, hid, hr
  · rintro ⟨id, hid, hr, hs'⟩
    use id, Program.exec_call.mpr ⟨hid, hs'⟩

theorem runs_now {r : Except String String} :
  now.Runs s r s' ↔ (∃ time, r = .ok time) ∧ s' = s
  := by
  have hlift : now.Runs s r s'
      ↔ ∃ time, Program.Exec MemoryOp.Step (Program.call MemoryOp.now) s time s' ∧ r = .ok time :=
    Program.exec_map
  rw [hlift]
  constructor
  · rintro ⟨time, hcall, hr⟩
    use ⟨time, hr⟩
    apply Program.exec_call.mp hcall
  · rintro ⟨⟨time, hr⟩, hs'⟩
    use time, Program.exec_call.mpr hs'

/-- After it took a new UUID a program goes on with it. -/
theorem of_runs_uuid_bind {g : String → MemoryM α} {r : Except String α}
    (h : (uuid >>= g).Runs s r s') :
  ∃ id, id ∉ s.issued ∧ (g id).Runs { s with issued := id :: s.issued } r s'
  := by
  rcases runs_bind.mp h with ⟨id, s₁, huuid, hrest⟩ | ⟨e, -, huuid⟩
  · obtain ⟨id', hnew, hid, rfl⟩ := runs_uuid.mp huuid
    obtain rfl := Except.ok.inj hid
    use id
  · obtain ⟨id, -, he, -⟩ := runs_uuid.mp huuid
    cases he

/-- After it looked at the clock a program goes on. -/
theorem of_runs_now_bind {g : String → MemoryM α} {r : Except String α}
    (h : (now >>= g).Runs s r s') :
  ∃ time, (g time).Runs s r s'
  := by
  rcases runs_bind.mp h with ⟨time, s₁, hnow, hrest⟩ | ⟨e, -, hnow⟩
  · obtain ⟨-, rfl⟩ := runs_now.mp hnow
    use time
  · obtain ⟨⟨time, he⟩, -⟩ := runs_now.mp hnow
    cases he

theorem runs_withConnection {c : Connection MemoryTables α} {r : Except String α} :
  (withConnection c).Runs s r s'
    ↔ ∃ x, c.on s.db = (x, s'.db) ∧ s'.issued = s.issued ∧ r = x.mapError ("SQLite error: " ++ ·)
  := by
  have hmap : (withConnection c).Runs s r s'
      ↔ ∃ x, Program.Exec MemoryOp.Step (Program.call (MemoryOp.connection c)) s x s'
        ∧ r = Except.mapError ("SQLite error: " ++ ·) x := Program.exec_map
  rw [hmap]
  constructor
  · rintro ⟨x, hcall, hr⟩
    obtain ⟨hon, hissued⟩ := Program.exec_call.mp hcall
    use x, hon, hissued
  · rintro ⟨x, hon, hissued, hr⟩
    use x, Program.exec_call.mpr ⟨hon, hissued⟩

theorem runs_named {call : String} {r : Except String α} :
  (program.named call).Runs s r s' ↔ ∃ x, program.Runs s x s' ∧ r = x.mapError (call ++ ·)
  := Program.exec_map

theorem runs_requiredStr {args : Json} {field : String} {r : Except String String} :
  (requiredStr args field).Runs s r s' ↔ r = required field (args.index field).asStr ∧ s' = s
  := Program.exec_ret

/-! ### Statements -/

/-- A statement makes its change, or fails and leaves the tables. -/
theorem runs_execute {change : MemoryTables → MemoryTables} {r : Except String Unit} :
  (withConnection (Connection.execute change)).Runs s r s' ↔ s'.issued = s.issued
    ∧ (s.db.nextFault = none ∧ r = .ok () ∧ s'.db = s.db.after (change s.db.tables)
      ∨ ∃ e, s.db.nextFault = some e ∧ r = .error ("SQLite error: " ++ e)
        ∧ s'.db = s.db.after s.db.tables)
  := by
  rw [runs_withConnection]
  cases hfault : s.db.nextFault with
  | none =>
      rw [Connection.execute_on_ok hfault]
      constructor
      · rintro ⟨x, hon, hissued, rfl⟩
        obtain ⟨rfl, hdb⟩ := Prod.mk.inj hon
        exact ⟨hissued, Or.inl ⟨rfl, rfl, hdb.symm⟩⟩
      · rintro ⟨hissued, ⟨-, rfl, hdb⟩ | ⟨e, he, -⟩⟩
        · exact ⟨.ok (), by rw [hdb], hissued, rfl⟩
        · cases he
  | some e =>
      rw [Connection.execute_on_error hfault]
      constructor
      · rintro ⟨x, hon, hissued, rfl⟩
        obtain ⟨rfl, hdb⟩ := Prod.mk.inj hon
        exact ⟨hissued, Or.inr ⟨e, rfl, rfl, hdb.symm⟩⟩
      · rintro ⟨hissued, ⟨hnone, -⟩ | ⟨e', he, rfl, hdb⟩⟩
        · cases hnone
        · obtain rfl := Option.some.inj he
          exact ⟨.error e, by rw [hdb], hissued, rfl⟩

theorem of_runs_execute {change : MemoryTables → MemoryTables} {r : Except String Unit}
    (h : (withConnection (Connection.execute change)).Runs s r s') :
  s'.issued = s.issued
    ∧ (r = .ok () ∧ s'.db.tables = change s.db.tables
      ∨ (∃ e, r = .error e) ∧ s'.db.tables = s.db.tables)
  := by
  obtain ⟨hissued, ⟨-, rfl, hdb⟩ | ⟨e, -, rfl, hdb⟩⟩ := runs_execute.mp h
  · rw [hdb]
    exact ⟨hissued, Or.inl ⟨rfl, rfl⟩⟩
  · rw [hdb]
    exact ⟨hissued, Or.inr ⟨⟨_, rfl⟩, rfl⟩⟩

/-- A statement that the tables may reject makes its change, or fails and leaves them. -/
theorem of_runs_statement {change : MemoryTables → Except String (α × MemoryTables)}
    {r : Except String α} (h : (withConnection (Connection.statement change)).Runs s r s') :
  s'.issued = s.issued
    ∧ ((∃ a, r = .ok a ∧ change s.db.tables = .ok (a, s'.db.tables))
      ∨ (∃ e, r = .error e) ∧ s'.db.tables = s.db.tables)
  := by
  obtain ⟨x, hon, hissued, rfl⟩ := runs_withConnection.mp h
  use hissued
  cases hfault : s.db.nextFault with
  | none =>
      rw [Connection.statement_on hfault] at hon
      rcases hchange : change s.db.tables with e | ⟨a, tables⟩
      · rw [hchange] at hon
        obtain ⟨rfl, hdb⟩ := Prod.mk.inj hon
        apply Or.inr
        rw [← hdb]
        exact ⟨⟨_, rfl⟩, rfl⟩
      · rw [hchange] at hon
        obtain ⟨rfl, hdb⟩ := Prod.mk.inj hon
        apply Or.inl
        use a, rfl
        rw [← hdb]
        rfl
  | some e =>
      rw [Connection.statement_on_error hfault] at hon
      obtain ⟨rfl, hdb⟩ := Prod.mk.inj hon
      apply Or.inr
      rw [← hdb]
      exact ⟨⟨_, rfl⟩, rfl⟩

/-- A query that succeeds answers from the tables. -/
theorem of_runs_query {find : MemoryTables → α} {a : α}
    (h : (withConnection (Connection.query find)).Runs s (.ok a) s') :
  a = find s.db.tables
  := by
  obtain ⟨e | a', hon, -, ha⟩ := runs_withConnection.mp h
  · cases ha
  · obtain rfl := Except.ok.inj ha
    apply (Connection.query_on_eq_ok hon).1

theorem of_runs_select {find : MemoryTables → Except String α} {a : α}
    (h : (withConnection (Connection.select find)).Runs s (.ok a) s') :
  find s.db.tables = .ok a
  := by
  obtain ⟨-, ⟨a', ha, hfind⟩ | ⟨⟨e, he⟩, -⟩⟩ := of_runs_statement h
  · obtain rfl := Except.ok.inj ha
    cases hresult : find s.db.tables with
    | error e =>
        rw [hresult] at hfind
        cases hfind
    | ok a' =>
        rw [hresult] at hfind
        rw [(Prod.mk.inj (Except.ok.inj hfind)).1]
  · cases he

end MemoryM

/-! ### Calls on memories -/

/-- The row of a memory that is saved. -/
def savedRow (codec : TagCodec) (id now project category content : String) (tags : List String) :
    MemoryRow :=
  { id, project, category, content, tags := some (codec.toText tags), createdAt := now,
    updatedAt := now }

theorem MemoryTables.of_insertMemory {row : MemoryRow} {tables tables' : MemoryTables}
    (h : tables.insertMemory row = .ok ((), tables')) :
  tables' = { tables with memories := tables.memories ++ [row] }
  := by
  rw [MemoryTables.insertMemory] at h
  split at h
  · cases h
  · apply (Prod.mk.inj (Except.ok.inj h)).2.symm

/-- The memory with an id gets a new content and new tags. -/
def MemoryTables.updateMemory (codec : TagCodec) (now id content : String) (tags : List String)
    (tables : MemoryTables) : MemoryTables :=
  let update (row : MemoryRow) : MemoryRow :=
    if row.id = id
    then { row with content := content, tags := some (codec.toText tags), updatedAt := now }
    else row
  { tables with memories := tables.memories.map update }

/-- The memory with an id is gone. -/
def MemoryTables.deleteMemory (id : String) (tables : MemoryTables) : MemoryTables :=
  { tables with memories := tables.memories.filter (fun row => row.id ≠ id) }

/-- The embeddings of an entity are gone. -/
def MemoryTables.deleteEmbeddings (entityType entityId : String) (tables : MemoryTables) :
    MemoryTables :=
  { tables with
    embeddings := tables.embeddings.filter (fun row =>
      ¬ (row.entityType = entityType ∧ row.entityId = entityId)) }

/-- The row that an embedding is stored as. -/
def Embedding.row {F : Type} [SingleFloat F] (embedding : Embedding F) : EmbeddingRow where
  id := embedding.id
  entityType := embedding.entityType
  entityId := embedding.entityId
  project := embedding.project
  model := embedding.model
  vector := vecToBlob embedding.vector
  dimension := Int.bmod embedding.dimension (2 ^ 32)

section Calls

variable {s s' : MemoryState} {codec : TagCodec}

/-- A memory is saved under a new id, or the call fails and leaves the tables. -/
theorem MemoryStorage.of_runs_saveMemory {project category content : String} {tags : List String}
    {r : Except String String}
    (h : (MemoryStorage.saveMemory codec project category content tags).Runs s r s') :
  ∃ id now, id ∉ s.issued ∧ s'.issued = id :: s.issued
    ∧ (r = .ok id ∧ s.db.tables.insertMemory (savedRow codec id now project category content tags)
        = .ok ((), s'.db.tables)
      ∨ (∃ e, r = .error e) ∧ s'.db.tables = s.db.tables)
  := by
  obtain ⟨id, hnew, h⟩ := MemoryM.of_runs_uuid_bind h
  obtain ⟨now, h⟩ := MemoryM.of_runs_now_bind h
  refine ⟨id, now, hnew, ?_⟩
  rcases MemoryM.runs_bind.mp h with ⟨_, s₁, hinsert, h⟩ | ⟨e, rfl, hinsert⟩
  · obtain ⟨rfl, rfl⟩ := MemoryM.runs_pure.mp h
    obtain ⟨hissued, ⟨_, -, htables⟩ | ⟨⟨e, he⟩, -⟩⟩ := MemoryM.of_runs_statement hinsert
    · exact ⟨hissued, Or.inl ⟨rfl, htables⟩⟩
    · cases he
  · obtain ⟨hissued, ⟨_, he, -⟩ | ⟨-, htables⟩⟩ := MemoryM.of_runs_statement hinsert
    · cases he
    · exact ⟨hissued, Or.inr ⟨⟨e, rfl⟩, htables⟩⟩

/-- The named call fails when the call does. -/
theorem MemoryM.of_runs_named {α : Type} {program : MemoryM α} {call : String}
    {r : Except String α} (h : (program.named call).Runs s r s') :
  (∃ a, r = .ok a ∧ program.Runs s (.ok a) s')
    ∨ ∃ e, r = .error (call ++ e) ∧ program.Runs s (.error e) s'
  := by
  obtain ⟨x, hruns, rfl⟩ := runs_named.mp h
  rcases x with e | a
  · exact Or.inr ⟨e, rfl, hruns⟩
  · exact Or.inl ⟨a, rfl, hruns⟩

end Calls

/-! ### Tools -/

namespace MemoryTools

section Tools

variable {F : Type} [SingleFloat F] {s s' : MemoryState} {codec : TagCodec} {args : Json}

/-- A required text is an argument, or the tool fails before it does anything. -/
theorem of_runs_required {α : Type} {field : String} {f : String → MemoryM α} {r : Except String α}
    (h : (requiredStr args field >>= f).Runs s r s') :
  (∃ value, (args.index field).asStr = some value ∧ (f value).Runs s r s')
    ∨ (∃ e, r = .error e) ∧ s' = s
  := by
  rcases MemoryM.runs_bind.mp h with ⟨value, s₁, hfield, hrest⟩ | ⟨e, rfl, hfield⟩
  · obtain ⟨hvalue, rfl⟩ := MemoryM.runs_requiredStr.mp hfield
    apply Or.inl
    refine ⟨value, ?_, hrest⟩
    cases hstr : (args.index field).asStr with
    | none =>
        rw [hstr] at hvalue
        cases hvalue
    | some text =>
        rw [hstr] at hvalue
        rw [Except.ok.inj hvalue]
  · obtain ⟨-, rfl⟩ := MemoryM.runs_requiredStr.mp hfield
    exact Or.inr ⟨⟨e, rfl⟩, rfl⟩

/-- The embedding that comes with a memory. -/
def memoryEmbedding (id memoryId project : String) (vector : List F) : Embedding F :=
  { id, entityType := "memory", entityId := memoryId, project, model := "default", vector,
    dimension := vector.length }

/-- An embedding is stored under a new id, or the call fails and leaves the tables; without a
vector nothing happens. -/
theorem of_runs_storeEmbedding {memoryId project : String} {vector : List F}
    {r : Except String Unit} (h : (storeEmbedding memoryId project vector).Runs s r s') :
  (vector = [] ∧ r = .ok () ∧ s' = s)
    ∨ vector ≠ [] ∧ ∃ id, id ∉ s.issued ∧ s'.issued = id :: s.issued
      ∧ (r = .ok () ∧ s'.db.tables
            = s.db.tables.replaceEmbedding (memoryEmbedding id memoryId project vector).row
        ∨ (∃ e, r = .error ("store embedding failed: " ++ e)) ∧ s'.db.tables = s.db.tables)
  := by
  rw [storeEmbedding] at h
  split at h
  case isTrue hempty =>
      obtain ⟨rfl, rfl⟩ := MemoryM.runs_pure.mp h
      exact Or.inl ⟨List.isEmpty_iff.mp hempty, rfl, rfl⟩
  case isFalse hempty =>
      apply Or.inr
      use fun hnil => hempty (List.isEmpty_iff.mpr hnil)
      obtain ⟨id, hnew, h⟩ := MemoryM.of_runs_uuid_bind h
      refine ⟨id, hnew, ?_⟩
      rcases MemoryM.of_runs_named h with ⟨_, rfl, hstore⟩ | ⟨e, rfl, hstore⟩
      · obtain ⟨hissued, ⟨-, htables⟩ | ⟨⟨e, he⟩, -⟩⟩ := MemoryM.of_runs_execute hstore
        · exact ⟨hissued, Or.inl ⟨rfl, htables⟩⟩
        · cases he
      · obtain ⟨hissued, ⟨he, -⟩ | ⟨-, htables⟩⟩ := MemoryM.of_runs_execute hstore
        · cases he
        · exact ⟨hissued, Or.inr ⟨⟨e, rfl⟩, htables⟩⟩

/-- An answer after the embedding was stored. -/
theorem of_runs_storeEmbedding_pure {memoryId project : String} {vector : List F} {answer : Json}
    {r : Except String Json}
    (h : (storeEmbedding memoryId project vector >>= fun _ => pure answer).Runs s r s') :
  (vector = [] ∧ r = .ok answer ∧ s' = s)
    ∨ vector ≠ [] ∧ ∃ id, id ∉ s.issued ∧ s'.issued = id :: s.issued
      ∧ (r = .ok answer ∧ s'.db.tables
            = s.db.tables.replaceEmbedding (memoryEmbedding id memoryId project vector).row
        ∨ (∃ e, r = .error ("store embedding failed: " ++ e)) ∧ s'.db.tables = s.db.tables)
  := by
  rcases MemoryM.runs_bind.mp h with ⟨_, s₁, hstore, h⟩ | ⟨e, rfl, hstore⟩
  · obtain ⟨rfl, rfl⟩ := MemoryM.runs_pure.mp h
    rcases of_runs_storeEmbedding hstore with
      ⟨hnil, -, rfl⟩ | ⟨hvector, id, hnew, hissued, ⟨-, htables⟩ | ⟨⟨e, he⟩, -⟩⟩
    · exact Or.inl ⟨hnil, rfl, rfl⟩
    · exact Or.inr ⟨hvector, id, hnew, hissued, Or.inl ⟨rfl, htables⟩⟩
    · cases he
  · rcases of_runs_storeEmbedding hstore with
      ⟨-, he, -⟩ | ⟨hvector, id, hnew, hissued, ⟨he, -⟩ | ⟨⟨e', he⟩, htables⟩⟩
    · cases he
    · cases he
    · rw [Except.error.inj he]
      exact Or.inr ⟨hvector, id, hnew, hissued, Or.inr ⟨⟨e', rfl⟩, htables⟩⟩

/-- What a successful save answers. -/
def savedAnswer (memoryId : String) : Json :=
  .object [("memory_id", .string memoryId)]

/-- Without a vector there is no embedding to store. -/
theorem saveMemory_eq :
  saveMemory F codec args = (do
    let project ← requiredStr args "project"
    let category ← requiredStr args "category"
    let content ← requiredStr args "content"
    let memoryId ← (MemoryStorage.saveMemory codec project category content (tagsOf args)).named
      "save_memory failed: "
    storeEmbedding memoryId project ((vectorOf F args).getD [])
    pure (savedAnswer memoryId))
  := by
  cases hvector : vectorOf F args with
  | none =>
      simp only [saveMemory, hvector]
      rfl
  | some vector =>
      simp only [saveMemory, hvector]
      rfl

/-- `saveMemory` fails and leaves the tables, or saves the memory and then stores the embedding
that came with it. -/
theorem of_runs_saveMemory {r : Except String Json}
    (h : (saveMemory F codec args).Runs s r s') :
  ((∃ e, r = .error e) ∧ s'.db.tables = s.db.tables)
    ∨ ∃ project category content id now tables, (args.index "project").asStr = some project
      ∧ (args.index "category").asStr = some category
      ∧ (args.index "content").asStr = some content
      ∧ id ∉ s.issued
      ∧ s.db.tables.insertMemory (savedRow codec id now project category content (tagsOf args))
        = .ok ((), tables)
      ∧ (((vectorOf F args).getD [] = [] ∧ r = .ok (savedAnswer id) ∧ s'.db.tables = tables
          ∧ s'.issued = id :: s.issued)
        ∨ (vectorOf F args).getD [] ≠ [] ∧ ∃ embeddingId, embeddingId ∉ id :: s.issued
          ∧ s'.issued = embeddingId :: id :: s.issued
          ∧ (r = .ok (savedAnswer id) ∧ s'.db.tables = tables.replaceEmbedding
                (memoryEmbedding embeddingId id project ((vectorOf F args).getD [])).row
            ∨ (∃ e, r = .error ("store embedding failed: " ++ e)) ∧ s'.db.tables = tables))
  := by
  rw [saveMemory_eq] at h
  rcases of_runs_required h with ⟨project, hproject, h⟩ | ⟨he, rfl⟩
  · rcases of_runs_required h with ⟨category, hcategory, h⟩ | ⟨he, rfl⟩
    · rcases of_runs_required h with ⟨content, hcontent, h⟩ | ⟨he, rfl⟩
      · rcases MemoryM.runs_bind.mp h with ⟨memoryId, s₁, hsave, h⟩ | ⟨e, rfl, hsave⟩
        · rcases MemoryM.of_runs_named hsave with ⟨memoryId', hid, hsave⟩ | ⟨e, he, -⟩
          · obtain rfl := Except.ok.inj hid
            obtain ⟨id, now, hnew, hissued, ⟨hid, hinsert⟩ | ⟨⟨e, he⟩, -⟩⟩ :=
              MemoryStorage.of_runs_saveMemory hsave
            · obtain rfl := Except.ok.inj hid
              apply Or.inr
              refine ⟨project, category, content, memoryId, now, s₁.db.tables, hproject, hcategory,
                hcontent, hnew, hinsert, ?_⟩
              rw [← hissued]
              apply (of_runs_storeEmbedding_pure h).imp _ id
              rintro ⟨hnil, hr, rfl⟩
              exact ⟨hnil, hr, rfl, rfl⟩
            · cases he
          · cases he
        · rcases MemoryM.of_runs_named hsave with ⟨_, he, -⟩ | ⟨e, -, hsave⟩
          · cases he
          · obtain ⟨id, now, -, -, ⟨he, -⟩ | ⟨-, htables⟩⟩ := MemoryStorage.of_runs_saveMemory hsave
            · cases he
            · exact Or.inl ⟨⟨_, rfl⟩, htables⟩
      · exact Or.inl ⟨he, rfl⟩
    · exact Or.inl ⟨he, rfl⟩
  · exact Or.inl ⟨he, rfl⟩

/-- A named statement makes its change, or fails and leaves the tables. -/
theorem of_runs_named_execute {call : String} {change : MemoryTables → MemoryTables}
    {r : Except String Unit}
    (h : ((MemoryM.withConnection (Connection.execute change)).named call).Runs s r s') :
  s'.issued = s.issued
    ∧ (r = .ok () ∧ s'.db.tables = change s.db.tables
      ∨ (∃ e, r = .error (call ++ e)) ∧ s'.db.tables = s.db.tables)
  := by
  rcases MemoryM.of_runs_named h with ⟨_, rfl, hexecute⟩ | ⟨e, rfl, hexecute⟩
  · obtain ⟨hissued, ⟨-, htables⟩ | ⟨⟨e, he⟩, -⟩⟩ := MemoryM.of_runs_execute hexecute
    · exact ⟨hissued, Or.inl ⟨rfl, htables⟩⟩
    · cases he
  · obtain ⟨hissued, ⟨he, -⟩ | ⟨-, htables⟩⟩ := MemoryM.of_runs_execute hexecute
    · cases he
    · exact ⟨hissued, Or.inr ⟨⟨e, rfl⟩, htables⟩⟩

/-- `deleteMemory` fails and leaves the tables, or deletes the memory and then its
embeddings. -/
theorem of_runs_deleteMemory {r : Except String Json} (h : (deleteMemory args).Runs s r s') :
  s'.issued = s.issued
    ∧ (((∃ e, r = .error e) ∧ s'.db.tables = s.db.tables)
      ∨ ∃ id, (args.index "memory_id").asStr = some id
        ∧ (r = .ok success
            ∧ s'.db.tables = (s.db.tables.deleteMemory id).deleteEmbeddings "memory" id
          ∨ (∃ e, r = .error ("delete embedding failed: " ++ e))
            ∧ s'.db.tables = s.db.tables.deleteMemory id))
  := by
  rcases of_runs_required h with ⟨id, hid, h⟩ | ⟨he, rfl⟩
  · rcases MemoryM.runs_bind.mp h with ⟨_, s₁, hmemory, h⟩ | ⟨e, rfl, hmemory⟩
    · obtain ⟨hissued, ⟨-, htables⟩ | ⟨⟨e, he⟩, -⟩⟩ := of_runs_named_execute hmemory
      · rcases MemoryM.runs_bind.mp h with ⟨_, s₂, hembedding, h⟩ | ⟨e, rfl, hembedding⟩
        · obtain ⟨hissued', ⟨-, htables'⟩ | ⟨⟨e, he⟩, -⟩⟩ := of_runs_named_execute hembedding
          · obtain ⟨rfl, rfl⟩ := MemoryM.runs_pure.mp h
            use hissued'.trans hissued
            apply Or.inr
            rw [htables] at htables'
            exact ⟨id, hid, Or.inl ⟨rfl, htables'⟩⟩
          · cases he
        · obtain ⟨hissued', ⟨he, -⟩ | ⟨⟨e', he⟩, htables'⟩⟩ := of_runs_named_execute hembedding
          · cases he
          · use hissued'.trans hissued
            apply Or.inr
            rw [htables] at htables'
            rw [Except.error.inj he]
            exact ⟨id, hid, Or.inr ⟨⟨e', rfl⟩, htables'⟩⟩
      · cases he
    · obtain ⟨hissued, ⟨he, -⟩ | ⟨-, htables⟩⟩ := of_runs_named_execute hmemory
      · cases he
      · exact ⟨hissued, Or.inl ⟨⟨e, rfl⟩, htables⟩⟩
  · exact ⟨rfl, Or.inl ⟨he, rfl⟩⟩

/-- `updateMemory` fails and leaves the tables, or updates the memory. -/
theorem of_runs_updateMemory {r : Except String Json}
    (h : (updateMemory codec args).Runs s r s') :
  s'.issued = s.issued
    ∧ (((∃ e, r = .error e) ∧ s'.db.tables = s.db.tables)
      ∨ ∃ id content now, (args.index "memory_id").asStr = some id
        ∧ (args.index "content").asStr = some content ∧ r = .ok success
        ∧ s'.db.tables = s.db.tables.updateMemory codec now id content (tagsOf args))
  := by
  rcases of_runs_required h with ⟨id, hid, h⟩ | ⟨he, rfl⟩
  · rcases of_runs_required h with ⟨content, hcontent, h⟩ | ⟨he, rfl⟩
    · rcases MemoryM.runs_bind.mp h with ⟨_, s₁, hupdate, h⟩ | ⟨e, rfl, hupdate⟩
      · obtain ⟨rfl, rfl⟩ := MemoryM.runs_pure.mp h
        rcases MemoryM.of_runs_named hupdate with ⟨_, -, hupdate⟩ | ⟨e, he, -⟩
        · obtain ⟨now, hupdate⟩ := MemoryM.of_runs_now_bind hupdate
          obtain ⟨hissued, ⟨-, htables⟩ | ⟨⟨e, he⟩, -⟩⟩ := MemoryM.of_runs_execute hupdate
          · exact ⟨hissued, Or.inr ⟨id, content, now, hid, hcontent, rfl, htables⟩⟩
          · cases he
        · cases he
      · rcases MemoryM.of_runs_named hupdate with ⟨_, he, -⟩ | ⟨e, -, hupdate⟩
        · cases he
        · obtain ⟨now, hupdate⟩ := MemoryM.of_runs_now_bind hupdate
          obtain ⟨hissued, ⟨he, -⟩ | ⟨-, htables⟩⟩ := MemoryM.of_runs_execute hupdate
          · cases he
          · exact ⟨hissued, Or.inl ⟨⟨_, rfl⟩, htables⟩⟩
    · exact ⟨rfl, Or.inl ⟨he, rfl⟩⟩
  · exact ⟨rfl, Or.inl ⟨he, rfl⟩⟩

end Tools

end MemoryTools

/-! ### Tools and their calls -/

/-- A property that a program has when the programs it is made of have it. -/
structure Compositional (P : (α : Type) → MemoryM α → Prop) : Prop where
  result : ∀ {α : Type} (x : Except String α), P α (ExceptT.mk (pure x))
  bind : ∀ {α β : Type} {program : MemoryM α} {f : α → MemoryM β},
    P α program → (∀ a, P β (f a)) → P β (program >>= f)
  mapError : ∀ {α : Type} {program : MemoryM α}, P α program → ∀ g : String → String,
    P α (ExceptT.mk ((fun x : Except String α => x.mapError g) <$> program.run))

namespace Compositional

variable {P : (α : Type) → MemoryM α → Prop} (h : Compositional P) {args : Json}

include h

theorem requiredStr_bind {α : Type} {field : String} {f : String → MemoryM α}
    (hf : ∀ value, P α (f value)) :
  P α (requiredStr args field >>= f)
  := h.bind (h.result _) hf

/-- A call that is named, and the answer after it. -/
theorem answer {α : Type} {program : MemoryM α} {call : String} {answer : α → Json}
    (hprogram : P α program) :
  P Json (program.named call >>= fun a => pure (answer a))
  := h.bind (h.mapError hprogram _) (fun a => h.result (.ok (answer a)))

theorem saveMemory {F : Type} [SingleFloat F] {codec : TagCodec}
    (hsave : ∀ project category content tags,
      P String (MemoryStorage.saveMemory codec project category content tags))
    (huuid : P String MemoryM.uuid)
    (hstore : ∀ embedding : Embedding F, P Unit (EmbeddingStore.store embedding)) :
  P Json (MemoryTools.saveMemory F codec args)
  := by
  rw [MemoryTools.saveMemory_eq]
  apply h.requiredStr_bind
  intro project
  apply h.requiredStr_bind
  intro category
  apply h.requiredStr_bind
  intro content
  apply h.bind (h.mapError (hsave project category content (tagsOf args)) _)
  intro memoryId
  have hembedding : P Unit
      (MemoryTools.storeEmbedding memoryId project ((vectorOf F args).getD [])) := by
    rw [MemoryTools.storeEmbedding]
    split
    · apply h.result (.ok ())
    · apply h.bind huuid
      intro id
      apply h.mapError (hstore _)
  apply h.bind hembedding
  intro _
  apply h.result (.ok (MemoryTools.savedAnswer memoryId))

theorem updateMemory {codec : TagCodec}
    (hupdate : ∀ id content tags, P Unit (MemoryStorage.updateMemory codec id content tags)) :
  P Json (MemoryTools.updateMemory codec args)
  := by
  apply h.requiredStr_bind
  intro memoryId
  apply h.requiredStr_bind
  intro content
  apply h.answer (hupdate memoryId content (tagsOf args))

theorem deleteMemory (hdelete : ∀ id, P Unit (MemoryStorage.deleteMemory id))
    (hembedding : ∀ entityType entityId, P Unit (EmbeddingStore.delete entityType entityId)) :
  P Json (MemoryTools.deleteMemory args)
  := by
  apply h.requiredStr_bind
  intro memoryId
  apply h.bind (h.mapError (hdelete memoryId) _)
  intro _
  apply h.answer (hembedding "memory" memoryId)

theorem startSession
    (hstart : ∀ project agentType model,
      P String (SessionManager.startSession project agentType model)) :
  P Json (MemoryTools.startSession args)
  := by
  apply h.requiredStr_bind
  intro project
  apply h.requiredStr_bind
  intro agentType
  apply h.requiredStr_bind
  intro model
  apply h.answer (hstart project agentType model)

theorem saveObservation
    (hsave : ∀ sessionId observationType content context,
      P String (ObservationStorage.saveObservation sessionId observationType content context)) :
  P Json (MemoryTools.saveObservation args)
  := by
  apply h.requiredStr_bind
  intro sessionId
  apply h.requiredStr_bind
  intro observationType
  apply h.requiredStr_bind
  intro content
  apply h.answer (hsave sessionId observationType content (optionalStr args "context"))

theorem endSession
    (hend : ∀ sessionId summary, P Unit (SessionManager.endSession sessionId summary)) :
  P Json (MemoryTools.endSession args)
  := by
  apply h.requiredStr_bind
  intro sessionId
  apply h.answer (hend sessionId _)

end Compositional

/-- The operations of a program are those of the programs it is made of. -/
theorem compositional_uses (P : MemoryOp → Prop) :
  Compositional (fun _ program => program.run.Uses P)
  := by
  constructor
  · intro α x
    apply Program.Uses.ret
  · intro α β program f hprogram hf
    apply Program.uses_fallible_bind hprogram hf
  · intro α program hprogram g
    apply hprogram.map

end OrchestraRag
