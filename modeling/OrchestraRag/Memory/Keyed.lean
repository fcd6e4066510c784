import OrchestraRag.Library.Eviction
import OrchestraRag.Library.Trace
import OrchestraRag.Memory.Runs

/-!
# Embeddings by key

An embedding is stored under its entity and its model.  Storing one evicts the row with its id
and the row with its key, so neither occurs twice, and after any calls on an empty table `get`
returns the last embedding stored under a key, unless a later call displaced it
(`embeddings_keyed`).
-/

namespace OrchestraRag

open Sql

/-! ### Blobs -/

theorem fromLeBytes_toLeBytes (bits : BitVec 32) :
  fromLeBytes (.ofNat bits.toNat) (.ofNat (bits.toNat / 2 ^ 8)) (.ofNat (bits.toNat / 2 ^ 16))
    (.ofNat (bits.toNat / 2 ^ 24)) = bits
  := by
  have hlt := bits.isLt
  apply BitVec.eq_of_toNat_eq
  simp only [fromLeBytes, UInt8.toNat_ofNat', BitVec.toNat_ofNat]
  omega

/-- A blob holds the bits of its vector. -/
theorem blobToVec_vecToBlob {F : Type} [SingleFloat F] (vector : List F) :
  (blobToVec (vecToBlob vector) : List F)
    = vector.map (fun f => SingleFloat.ofBits (SingleFloat.toBits f))
  := by
  induction vector with
  | nil => rfl
  | cons f vector ih =>
      rw [List.map_cons, ← ih, vecToBlob, List.flatMap_cons, toLeBytes, List.cons_append,
        List.cons_append, List.cons_append, List.cons_append, List.nil_append, blobToVec,
        fromLeBytes_toLeBytes]
      rfl

theorem F32.blobToVec_vecToBlob (vector : List F32) :
  blobToVec (vecToBlob vector) = vector
  := by
  rw [OrchestraRag.blobToVec_vecToBlob]
  apply List.map_id

/-! ### Rows -/

/-- What an embedding is stored under. -/
def EmbeddingRow.key (row : EmbeddingRow) : String × String × String :=
  (row.entityType, row.entityId, row.model)

/-- What an embedding is stored under. -/
def Embedding.key {F : Type} (embedding : Embedding F) : String × String × String :=
  (embedding.entityType, embedding.entityId, embedding.model)

/-- An embedding whose dimension fits is read back from its row. -/
theorem embeddingFromRow_row {embedding : Embedding F32} (h : embedding.dimension < 2 ^ 31) :
  embeddingFromRow embedding.row = .ok embedding
  := by
  have hdimension : Int.bmod embedding.dimension (2 ^ 32) = embedding.dimension := by
    apply Int.bmod_eq_of_le
    · omega
    · omega
  have hmod : ((embedding.dimension : ℤ) % 2 ^ 64).toNat = embedding.dimension := by omega
  have hfits : -2 ^ 31 ≤ (embedding.dimension : ℤ) ∧ (embedding.dimension : ℤ) < 2 ^ 31 := by omega
  simp only [embeddingFromRow, Embedding.row, hdimension, if_pos hfits, hmod,
    F32.blobToVec_vecToBlob]

/-! ### Calls -/

/-- A call that writes embeddings. -/
inductive EmbeddingCall (F : Type) where
  | store (embedding : Embedding F)
  | delete (entityType entityId : String)

namespace EmbeddingCall

variable {F : Type} [SingleFloat F]

def program : EmbeddingCall F → MemoryM Unit
  | store embedding => EmbeddingStore.store embedding
  | delete entityType entityId => EmbeddingStore.delete entityType entityId

/-- The call removes the row from the table. -/
def evicts : EmbeddingCall F → EmbeddingRow → Bool
  | store embedding, row => row.id = embedding.id ∨ row.key = embedding.key
  | delete entityType entityId, row => row.entityType = entityType ∧ row.entityId = entityId

/-- The row that the call adds to the table. -/
def adds : EmbeddingCall F → Option EmbeddingRow
  | store embedding => some embedding.row
  | delete _ _ => none

/-- A call stores an embedding in the place of this one, or deletes it. -/
def Displaces (embedding : Embedding F) : EmbeddingCall F → Prop
  | store other => other.key = embedding.key ∨ other.id = embedding.id
  | delete entityType entityId =>
      entityType = embedding.entityType ∧ entityId = embedding.entityId

theorem evicts_row {call : EmbeddingCall F} {embedding : Embedding F} :
  call.evicts embedding.row = true ↔ call.Displaces embedding
  := by
  cases call with
  | store other =>
      have hkey : embedding.row.key = embedding.key := rfl
      rw [evicts, decide_eq_true_iff, hkey, or_comm]
      apply or_congr eq_comm eq_comm
  | delete entityType entityId =>
      rw [evicts, decide_eq_true_iff]
      apply and_congr eq_comm eq_comm

/-- A call evicts and adds rows, or fails and leaves the tables. -/
theorem runs_program {call : EmbeddingCall F} {s s' : MemoryState} {r : Except String Unit}
    (h : call.program.Runs s r s') :
  (r = .ok () ∧ s'.db.tables.embeddings = Eviction.apply evicts adds s.db.tables.embeddings call)
    ∨ (∃ e, r = .error e) ∧ s'.db.tables.embeddings = s.db.tables.embeddings
  := by
  cases call with
  | store embedding =>
      obtain ⟨-, ⟨-, rfl, hdb⟩ | ⟨e, -, rfl, hdb⟩⟩ := MemoryM.runs_execute.mp h
      · apply Or.inl
        rw [hdb]
        constructor
        · rfl
        · apply congrArg (· ++ [embedding.row])
          apply List.filter_congr
          intro row _
          simp [evicts, EmbeddingRow.key, Embedding.key]
      · apply Or.inr
        rw [hdb]
        exact ⟨⟨_, rfl⟩, rfl⟩
  | delete entityType entityId =>
      obtain ⟨-, ⟨-, rfl, hdb⟩ | ⟨e, -, rfl, hdb⟩⟩ := MemoryM.runs_execute.mp h
      · apply Or.inl
        rw [hdb]
        constructor
        · rfl
        · rw [Eviction.apply, adds, Option.toList_none, List.append_nil]
          apply List.filter_congr
          intro row _
          simp [evicts]
      · apply Or.inr
        rw [hdb]
        exact ⟨⟨_, rfl⟩, rfl⟩

end EmbeddingCall

/-! ### Calls one after another -/

section Calls

variable {F : Type} [SingleFloat F]

/-- One call of a history, with what it returned. -/
def EmbeddingStep (s : MemoryState) (e : EmbeddingCall F × Except String Unit)
    (s' : MemoryState) : Prop :=
  e.1.program.Runs s e.2 s'

/-- The calls of a history that succeeded. -/
def succeeded (history : List ((EmbeddingCall F × Except String Unit) × MemoryState)) :
    List (EmbeddingCall F) :=
  history.filterMap (fun step => if step.1.2.isOk then some step.1.1 else none)

/-- The table after a history is the one its calls make. -/
theorem embeddings_last {s : MemoryState}
    {history : List ((EmbeddingCall F × Except String Unit) × MemoryState)}
    (h : Trace EmbeddingStep s history) :
  (Trace.last s history).db.tables.embeddings
    = (succeeded history).foldl (Eviction.apply EmbeddingCall.evicts EmbeddingCall.adds)
      s.db.tables.embeddings
  := by
  induction h with
  | nil => rfl
  | cons hfirst _ ih =>
      rw [Trace.last, ih]
      rcases EmbeddingCall.runs_program hfirst with ⟨hr, htable⟩ | ⟨⟨e, hr⟩, htable⟩
      · rw [htable, succeeded, succeeded, List.filterMap_cons, hr]
        rfl
      · rw [htable, succeeded, succeeded, List.filterMap_cons, hr]
        rfl

end Calls

/-! ### The keyed map -/

/-- No change adds a row at odds with one it keeps. -/
theorem EmbeddingCall.id_ne_of_adds {F : Type} [SingleFloat F] (call : EmbeddingCall F)
    (row other : EmbeddingRow) (hadds : call.adds = some row) (hkept : call.evicts other = false) :
  other.id ≠ row.id ∧ other.key ≠ row.key
  := by
  cases call with
  | store embedding =>
      obtain rfl := Option.some.inj hadds
      rw [evicts, decide_eq_false_iff_not, not_or] at hkept
      apply hkept
  | delete entityType entityId => cases hadds

/-- The rows that a history of an empty table leaves are those of the embeddings that were stored
and not displaced. -/
theorem mem_last {F : Type} [SingleFloat F] {s : MemoryState}
    (hempty : s.db.tables.embeddings = [])
    {history : List ((EmbeddingCall F × Except String Unit) × MemoryState)}
    (h : Trace EmbeddingStep s history) {row : EmbeddingRow} :
  row ∈ (Trace.last s history).db.tables.embeddings
    ↔ ∃ before embedding after, succeeded history = before ++ .store embedding :: after
      ∧ row = embedding.row ∧ ∀ call ∈ after, ¬ call.Displaces embedding
  := by
  rw [embeddings_last h, hempty]
  apply Eviction.mem_run.trans
  constructor
  · rintro ⟨before, call, after, hcalls, hadds, hafter⟩
    cases call with
    | store embedding =>
        obtain rfl := Option.some.inj hadds
        refine ⟨before, embedding, after, hcalls, rfl, ?_⟩
        intro call hcall hdisplaces
        rw [← EmbeddingCall.evicts_row, hafter call hcall] at hdisplaces
        cases hdisplaces
    | delete entityType entityId => cases hadds
  · rintro ⟨before, embedding, after, hcalls, rfl, hafter⟩
    refine ⟨before, .store embedding, after, hcalls, rfl, ?_⟩
    intro call hcall
    rw [← Bool.not_eq_true, EmbeddingCall.evicts_row]
    apply hafter call hcall

/-- A history of an empty table leaves no id and no key twice. -/
theorem unique_last {F : Type} [SingleFloat F] {s : MemoryState}
    (hempty : s.db.tables.embeddings = [])
    {history : List ((EmbeddingCall F × Except String Unit) × MemoryState)}
    (h : Trace EmbeddingStep s history) :
  ((Trace.last s history).db.tables.embeddings.map EmbeddingRow.id).Nodup
    ∧ ((Trace.last s history).db.tables.embeddings.map EmbeddingRow.key).Nodup
  := by
  rw [embeddings_last h, hempty]
  constructor
  · apply Eviction.nodup_map_run
    intro call row other hadds hkept
    apply (EmbeddingCall.id_ne_of_adds call row other hadds hkept).1
  · apply Eviction.nodup_map_run
    intro call row other hadds hkept
    apply (EmbeddingCall.id_ne_of_adds call row other hadds hkept).2

/-- The row found for a key is the one with the key. -/
theorem embeddingRow_eq_some_iff {tables : MemoryTables}
    (hkeys : (tables.embeddings.map EmbeddingRow.key).Nodup) {scan : Scan EmbeddingRow}
    {entityType entityId model : String} {row : EmbeddingRow} :
  tables.embeddingRow scan entityType entityId model = some row
    ↔ row ∈ tables.embeddings ∧ row.key = (entityType, entityId, model)
  := by
  have hmem : ∀ other, other ∈ tables.embeddings.filter (fun row => row.entityType = entityType
      ∧ row.entityId = entityId ∧ row.model = model)
      ↔ other ∈ tables.embeddings ∧ other.key = (entityType, entityId, model) := by
    intro other
    rw [List.mem_filter, decide_eq_true_iff, EmbeddingRow.key, Prod.mk.injEq, Prod.mk.injEq]
  rw [MemoryTables.embeddingRow, scan.head?_order, hmem]
  intro a ha b hb
  obtain ⟨ha, hakey⟩ := (hmem a).mp ha
  obtain ⟨hb, hbkey⟩ := (hmem b).mp hb
  apply List.inj_on_of_nodup_map hkeys ha hb (hakey.trans hbkey.symm)

/-- After a history of an empty table, the row found for a key is the one of the embedding that
was stored under the key and not displaced. -/
theorem embeddingRow_last_iff {F : Type} [SingleFloat F] {s : MemoryState}
    (hempty : s.db.tables.embeddings = [])
    {history : List ((EmbeddingCall F × Except String Unit) × MemoryState)}
    (h : Trace EmbeddingStep s history) (scan : Scan EmbeddingRow)
    {entityType entityId model : String} {row : EmbeddingRow} :
  (Trace.last s history).db.tables.embeddingRow scan entityType entityId model = some row
    ↔ ∃ before embedding after, succeeded history = before ++ .store embedding :: after
      ∧ row = embedding.row ∧ embedding.key = (entityType, entityId, model)
      ∧ ∀ call ∈ after, ¬ call.Displaces embedding
  := by
  rw [embeddingRow_eq_some_iff (unique_last hempty h).2, mem_last hempty h]
  constructor
  · rintro ⟨⟨before, embedding, after, hcalls, rfl, hafter⟩, hkey⟩
    exact ⟨before, embedding, after, hcalls, rfl, hkey, hafter⟩
  · rintro ⟨before, embedding, after, hcalls, rfl, hkey, hafter⟩
    exact ⟨⟨before, embedding, after, hcalls, rfl, hafter⟩, hkey⟩

/-- What `get` returns, when its statement does not fail. -/
theorem runs_get {F : Type} [SingleFloat F] {scan : Scan EmbeddingRow}
    {entityType entityId model : String} {s s' : MemoryState}
    {r : Except String (Option (Embedding F))}
    (h : (EmbeddingStore.get scan entityType entityId model).Runs s r s')
    (hfault : s.db.nextFault = none) :
  r = (match s.db.tables.embeddingRow scan entityType entityId model with
    | some row => (embeddingFromRow row).map some
    | none => .ok none).mapError ("SQLite error: " ++ ·)
  := by
  obtain ⟨x, hon, -, rfl⟩ := MemoryM.runs_withConnection.mp h
  rw [Connection.select_on hfault] at hon
  obtain rfl := (Prod.mk.inj hon).1
  rfl

/-- After any calls of `store` and `delete` on an empty table, no row id and no key occurs twice,
and `get` returns an embedding exactly if it was stored under the key and no later call
displaced it. -/
theorem embeddings_keyed {s : MemoryState} (hempty : s.db.tables.embeddings = [])
    {history : List ((EmbeddingCall F32 × Except String Unit) × MemoryState)}
    (h : Trace EmbeddingStep s history)
    (hdimension : ∀ embedding, .store embedding ∈ succeeded history →
      embedding.dimension < 2 ^ 31) :
  ((Trace.last s history).db.tables.embeddings.map EmbeddingRow.id).Nodup
  ∧ ((Trace.last s history).db.tables.embeddings.map EmbeddingRow.key).Nodup
  ∧ ∀ (scan : Scan EmbeddingRow) (entityType entityId model : String)
      (r : Except String (Option (Embedding F32))) (s' : MemoryState),
    (EmbeddingStore.get scan entityType entityId model).Runs (Trace.last s history) r s' →
    (Trace.last s history).db.nextFault = none →
      ∃ answer, r = .ok answer ∧ ∀ embedding, answer = some embedding
        ↔ ∃ before after, succeeded history = before ++ .store embedding :: after
          ∧ embedding.key = (entityType, entityId, model)
          ∧ ∀ call ∈ after, ¬ call.Displaces embedding
  := by
  obtain ⟨hids, hkeys⟩ := unique_last hempty h
  use hids, hkeys
  intro scan entityType entityId model r s' hget hfault
  have hr := runs_get hget hfault
  have hfits : ∀ before embedding after,
      succeeded history = before ++ .store embedding :: after → embedding.dimension < 2 ^ 31 := by
    intro before embedding after hcalls
    apply hdimension
    rw [hcalls]
    simp
  cases hrow : (Trace.last s history).db.tables.embeddingRow scan entityType entityId model with
  | none =>
      rw [hrow] at hr
      refine ⟨none, hr, ?_⟩
      intro embedding
      constructor
      · intro hnone
        cases hnone
      · rintro ⟨before, after, hcalls, hkey, hafter⟩
        have hfound := (embeddingRow_last_iff hempty h scan).mpr
          ⟨before, embedding, after, hcalls, rfl, hkey, hafter⟩
        cases hrow.symm.trans hfound
  | some row =>
      obtain ⟨before, stored, after, hcalls, rfl, hkey, hafter⟩ :=
        (embeddingRow_last_iff hempty h scan).mp hrow
      have hread := embeddingFromRow_row (hfits before stored after hcalls)
      rw [hrow] at hr
      dsimp only at hr
      rw [hread] at hr
      refine ⟨some stored, hr, ?_⟩
      intro embedding
      constructor
      · intro hsome
        obtain rfl := Option.some.inj hsome
        exact ⟨before, after, hcalls, hkey, hafter⟩
      · rintro ⟨before', after', hcalls', hkey', hafter'⟩
        have hfound := (embeddingRow_last_iff hempty h scan).mpr
          ⟨before', embedding, after', hcalls', rfl, hkey', hafter'⟩
        have hsame : stored.row = embedding.row := Option.some.inj (hrow.symm.trans hfound)
        rw [hsame, embeddingFromRow_row (hfits before' embedding after' hcalls')] at hread
        rw [Except.ok.inj hread]

/-- An embedding with a NaN that has a payload. -/
def nanEmbedding : Embedding F32 where
  id := "e1"
  entityType := "memory"
  entityId := "m1"
  project := "p"
  model := "default"
  vector := [⟨0x7fc00001⟩, ⟨0x3f800000⟩]
  dimension := 2

/-- An older embedding of the same memory, one of another memory with the same row id, and one of
a third memory. -/
def olderEmbedding : Embedding F32 :=
  { nanEmbedding with id := "e0", vector := [⟨0x3f800000⟩], dimension := 1 }

def sameIdEmbedding : Embedding F32 :=
  { olderEmbedding with id := "e1", entityId := "m2" }

def thirdEmbedding : Embedding F32 :=
  { olderEmbedding with id := "e3", entityId := "m3" }

/-- The calls on a new file: the embedding takes the place of the first one, by its key, and of the
second one, by its id; the third one is deleted. -/
def embeddingCalls : List (EmbeddingCall F32) :=
  [.store olderEmbedding, .store sameIdEmbedding, .store thirdEmbedding, .store nanEmbedding,
    .delete "memory" "m3"]

/-- The file with these embeddings. -/
def embeddingFile (embeddings : List (Embedding F32)) : MemoryState :=
  ⟨⟨{ MemoryTables.empty with embeddings := embeddings.map Embedding.row }, []⟩, []⟩

theorem runs_embeddingFile {change : MemoryTables → MemoryTables}
    {embeddings later : List (Embedding F32)}
    (h : change (embeddingFile embeddings).db.tables = (embeddingFile later).db.tables) :
  (MemoryM.withConnection (Connection.execute change)).Runs (embeddingFile embeddings) (.ok ())
    (embeddingFile later)
  := by
  apply MemoryM.runs_execute.mpr
  refine ⟨rfl, Or.inl ⟨rfl, rfl, ?_⟩⟩
  rw [h]
  rfl

/-- The embedding is read back, and it is the only one. -/
theorem embeddings_keyed_nan :
  ∃ history : List ((EmbeddingCall F32 × Except String Unit) × MemoryState),
    Trace EmbeddingStep (embeddingFile []) history
    ∧ succeeded history = embeddingCalls
    ∧ Trace.last (embeddingFile []) history = embeddingFile [nanEmbedding]
    ∧ ∀ scan (r : Except String (Option (Embedding F32))) s',
      (EmbeddingStore.get scan "memory" "m1" "default").Runs (embeddingFile [nanEmbedding]) r s' →
        r = .ok (some nanEmbedding)
  := by
  have hfirst : EmbeddingStep (embeddingFile []) (.store olderEmbedding, .ok ())
      (embeddingFile [olderEmbedding]) := runs_embeddingFile rfl
  have hsecond : EmbeddingStep (embeddingFile [olderEmbedding]) (.store sameIdEmbedding, .ok ())
      (embeddingFile [olderEmbedding, sameIdEmbedding]) := runs_embeddingFile rfl
  have hthird : EmbeddingStep (embeddingFile [olderEmbedding, sameIdEmbedding])
      (.store thirdEmbedding, .ok ())
      (embeddingFile [olderEmbedding, sameIdEmbedding, thirdEmbedding]) := runs_embeddingFile rfl
  have hreplaces : EmbeddingStep (embeddingFile [olderEmbedding, sameIdEmbedding, thirdEmbedding])
      (.store nanEmbedding, .ok ()) (embeddingFile [thirdEmbedding, nanEmbedding]) :=
    runs_embeddingFile rfl
  have hdeletes : EmbeddingStep (embeddingFile [thirdEmbedding, nanEmbedding])
      ((.delete "memory" "m3" : EmbeddingCall F32), .ok ()) (embeddingFile [nanEmbedding]) :=
    runs_embeddingFile rfl
  have htrace := Trace.cons hfirst (Trace.cons hsecond (Trace.cons hthird
    (Trace.cons hreplaces (Trace.cons hdeletes Trace.nil))))
  refine ⟨_, htrace, rfl, rfl, ?_⟩
  intro scan r s' hget
  have hdimension : ∀ embedding, EmbeddingCall.store embedding ∈ embeddingCalls →
      embedding.dimension < 2 ^ 31 := by
    intro embedding hmem
    simp only [embeddingCalls, List.mem_cons, EmbeddingCall.store.injEq, reduceCtorEq,
      List.not_mem_nil, or_false] at hmem
    rcases hmem with rfl | rfl | rfl | rfl
    · decide
    · decide
    · decide
    · decide
  obtain ⟨answer, rfl, hanswer⟩ :=
    (embeddings_keyed rfl htrace hdimension).2.2 scan "memory" "m1" "default" r s' hget rfl
  have hkept : ∀ call ∈ [(EmbeddingCall.delete "memory" "m3" : EmbeddingCall F32)],
      ¬ call.Displaces nanEmbedding := by
    intro call hcall
    rw [List.mem_singleton.mp hcall]
    rintro ⟨-, hid⟩
    apply absurd hid
    decide
  rw [(hanswer nanEmbedding).mpr ⟨embeddingCalls.take 3, _, rfl, rfl, hkept⟩]

end OrchestraRag
