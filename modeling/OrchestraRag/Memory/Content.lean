import OrchestraRag.Library.Trace
import OrchestraRag.Memory.Failure

/-!
# Contents and embeddings

An embedding comes with a memory when it is saved; `update_memory` changes the content and
leaves the embedding.  A run of successful calls is recorded with what was `supplied` together:
the memory, its embedding and its content.  In every state of the run the embeddings are those of
current contents exactly if no update gives a memory that has an embedding another content
(`contents_embedded_iff`).
-/

namespace OrchestraRag

open Sql

/-! ### Runs of edits -/

/-- The tools that write memories. -/
inductive MemoryEdit where
  | saveMemory
  | updateMemory
  | deleteMemory

def MemoryEdit.handler (F : Type) [SingleFloat F] (codec : TagCodec) :
    MemoryEdit → Json → MemoryM Json
  | .saveMemory => MemoryTools.saveMemory F codec
  | .updateMemory => MemoryTools.updateMemory codec
  | .deleteMemory => MemoryTools.deleteMemory

/-- A call of a tool that succeeded. -/
structure Edit where
  tool : MemoryEdit
  args : Json
  answer : Json

/-- A memory, the vector that came with it, and the content that it came with. -/
structure Supplied where
  memoryId : String
  vector : List UInt8
  content : String

/-- The state of the tables, with what was supplied so far. -/
structure EditState where
  memory : MemoryState
  supplied : List Supplied

section Edits

variable {F : Type} [SingleFloat F]

variable (F) in
/-- What a call supplies. -/
def Edit.supplied (edit : Edit) : List Supplied :=
  match edit.tool, (edit.answer.index "memory_id").asStr, (edit.args.index "content").asStr with
  | .saveMemory, some memoryId, some content =>
      [{ memoryId, vector := vecToBlob ((vectorOf F edit.args).getD []), content }]
  | _, _, _ => []

/-- A call runs to its end and succeeds. -/
def EditStep (F : Type) [SingleFloat F] (codec : TagCodec) (s : EditState) (edit : Edit)
    (s' : EditState) : Prop :=
  (edit.tool.handler F codec edit.args).Runs s.memory (.ok edit.answer) s'.memory
    ∧ s'.supplied = edit.supplied F ++ s.supplied

namespace EditState

def tables (s : EditState) : MemoryTables :=
  s.memory.db.tables

/-- Every embedding of a memory was supplied together with the content of the memory. -/
def Current (s : EditState) : Prop :=
  ∀ e ∈ s.tables.embeddings, e.entityType = "memory" → ∀ row ∈ s.tables.memories,
    row.id = e.entityId → ⟨row.id, e.vector, row.content⟩ ∈ s.supplied

/-- The call does not give a memory that has an embedding another content. -/
def KeepsContent (s : EditState) (edit : Edit) : Prop :=
  match edit.tool with
  | .updateMemory => ∀ id content, (edit.args.index "memory_id").asStr = some id →
      (edit.args.index "content").asStr = some content →
      ∀ e ∈ s.tables.embeddings, e.entityType = "memory" → e.entityId = id →
      ∀ row ∈ s.tables.memories, row.id = id → row.content = content
  | _ => True

/-- What the tables and the record of what was supplied have in common: all ids were issued, and
each was supplied with once. -/
structure Recorded (s : EditState) : Prop where
  memories : ∀ row ∈ s.tables.memories, row.id ∈ s.memory.issued
  embeddings : ∀ e ∈ s.tables.embeddings, e.entityType = "memory" → e.entityId ∈ s.memory.issued
  supplied : ∀ x ∈ s.supplied, x.memoryId ∈ s.memory.issued
  once : ∀ x ∈ s.supplied, ∀ y ∈ s.supplied, x.memoryId = y.memoryId → x = y

end EditState

/-! ### One edit -/

variable {codec : TagCodec} {s s' : EditState} {args answer : Json}

open EditState

/-- What a successful save does. -/
theorem of_saveMemory_step (h : EditStep F codec s ⟨.saveMemory, args, answer⟩ s') :
  ∃ row blob, row.id ∉ s.memory.issued
    ∧ s'.tables.memories = s.tables.memories ++ [row]
    ∧ (∀ e ∈ s'.tables.embeddings, e ∈ s.tables.embeddings ∨ e.entityId = row.id ∧ e.vector = blob)
    ∧ s'.supplied = ⟨row.id, blob, row.content⟩ :: s.supplied
    ∧ row.id :: s.memory.issued ⊆ s'.memory.issued
  := by
  obtain ⟨hruns, hsupplied⟩ := h
  rcases MemoryTools.of_runs_saveMemory hruns with ⟨⟨e, he⟩, -⟩ |
    ⟨project, category, content, id, now, tables, -, -, hcontent, hnew, hinsert, hembedding⟩
  · cases he
  · obtain ⟨hanswer, htables, hissued⟩ : answer = MemoryTools.savedAnswer id
        ∧ (s'.tables.memories = tables.memories
          ∧ ∀ e ∈ s'.tables.embeddings, e ∈ tables.embeddings ∨ e.entityId = id
            ∧ e.vector = vecToBlob ((vectorOf F args).getD []))
        ∧ id :: s.memory.issued ⊆ s'.memory.issued := by
      rcases hembedding with ⟨-, hr, htables, hissued⟩ |
        ⟨-, embeddingId, -, hissued, ⟨hr, htables⟩ | ⟨⟨e, he⟩, -⟩⟩
      · use Except.ok.inj hr
        rw [EditState.tables, htables, hissued]
        exact ⟨⟨rfl, fun e he => Or.inl he⟩, List.Subset.refl _⟩
      · use Except.ok.inj hr
        rw [EditState.tables, htables, hissued]
        refine ⟨⟨rfl, ?_⟩, List.subset_cons_self _ _⟩
        intro e he
        rcases List.mem_append.mp he with he | he
        · apply Or.inl (List.mem_of_mem_filter he)
        · obtain rfl := List.mem_singleton.mp he
          exact Or.inr ⟨rfl, rfl⟩
      · cases he
    use savedRow codec id now project category content (tagsOf args),
      vecToBlob ((vectorOf F args).getD []), hnew
    obtain rfl := MemoryTables.of_insertMemory hinsert
    refine ⟨htables.1, htables.2, ?_, hissued⟩
    have hid : ((MemoryTools.savedAnswer id).index "memory_id").asStr = some id := rfl
    rw [hsupplied, Edit.supplied]
    simp only [hanswer, hid, hcontent]
    rfl

/-- What a successful deletion does. -/
theorem of_deleteMemory_step (h : EditStep F codec s ⟨.deleteMemory, args, answer⟩ s') :
  s'.tables.memories ⊆ s.tables.memories ∧ s'.tables.embeddings ⊆ s.tables.embeddings
    ∧ s'.supplied = s.supplied ∧ s'.memory.issued = s.memory.issued
  := by
  obtain ⟨hruns, hsupplied⟩ := h
  obtain ⟨hissued, ⟨⟨e, he⟩, -⟩ | ⟨id, -, ⟨-, htables⟩ | ⟨⟨e, he⟩, -⟩⟩⟩ :=
    MemoryTools.of_runs_deleteMemory hruns
  · cases he
  · rw [EditState.tables, htables]
    exact ⟨List.filter_sublist.subset, List.filter_sublist.subset, hsupplied, hissued⟩
  · cases he

/-- What a successful update does. -/
theorem of_updateMemory_step (h : EditStep F codec s ⟨.updateMemory, args, answer⟩ s') :
  ∃ id content now, (args.index "memory_id").asStr = some id
    ∧ (args.index "content").asStr = some content
    ∧ (∀ row', row' ∈ s'.tables.memories ↔ ∃ row ∈ s.tables.memories,
      (if row.id = id
        then { row with content := content, tags := some (codec.toText (tagsOf args)),
                        updatedAt := now }
        else row) = row')
    ∧ s'.tables.embeddings = s.tables.embeddings
    ∧ s'.supplied = s.supplied ∧ s'.memory.issued = s.memory.issued
  := by
  obtain ⟨hruns, hsupplied⟩ := h
  obtain ⟨hissued, ⟨⟨e, he⟩, -⟩ | ⟨id, content, now, hid, hcontent, -, htables⟩⟩ :=
    MemoryTools.of_runs_updateMemory hruns
  · cases he
  · use id, content, now, hid, hcontent
    rw [EditState.tables, htables]
    exact ⟨fun _ => List.mem_map, rfl, hsupplied, hissued⟩

/-! #### The record -/

/-- A save is recorded under a new id. -/
theorem recorded_saveMemory (hrecorded : s.Recorded)
    (h : EditStep F codec s ⟨.saveMemory, args, answer⟩ s') :
  s'.Recorded
  := by
  obtain ⟨row, blob, hnew, hmemories, hembeddings, hsupplied, hissued⟩ := of_saveMemory_step h
  obtain ⟨hid, hold⟩ := List.cons_subset.mp hissued
  have hfresh : ∀ x ∈ s.supplied, x.memoryId ≠ row.id := by
    intro x hx hsame
    apply hnew
    rw [← hsame]
    apply hrecorded.supplied x hx
  constructor
  · intro other hother
    rw [hmemories] at hother
    rcases List.mem_append.mp hother with hother | hother
    · apply hold (hrecorded.memories other hother)
    · obtain rfl := List.mem_singleton.mp hother
      apply hid
  · intro e he htype
    rcases hembeddings e he with he | ⟨he, -⟩
    · apply hold (hrecorded.embeddings e he htype)
    · rw [he]
      apply hid
  · intro x hx
    rw [hsupplied] at hx
    rcases List.mem_cons.mp hx with rfl | hx
    · apply hid
    · apply hold (hrecorded.supplied x hx)
  · intro x hx y hy hxy
    rw [hsupplied] at hx hy
    rcases List.mem_cons.mp hx with rfl | hx
    · rcases List.mem_cons.mp hy with rfl | hy
      · rfl
      · apply absurd hxy.symm (hfresh y hy)
    · rcases List.mem_cons.mp hy with rfl | hy
      · apply absurd hxy (hfresh x hx)
      · apply hrecorded.once x hx y hy hxy

omit [SingleFloat F] in
/-- Fewer rows are recorded by the same record. -/
theorem EditState.Recorded.mono (h : s.Recorded)
    (hmemories : ∀ row ∈ s'.tables.memories, ∃ row' ∈ s.tables.memories, row'.id = row.id)
    (hembeddings : s'.tables.embeddings ⊆ s.tables.embeddings)
    (hsupplied : s'.supplied = s.supplied) (hissued : s'.memory.issued = s.memory.issued) :
  s'.Recorded
  := by
  constructor
  · intro row hrow
    obtain ⟨row', hrow', hid⟩ := hmemories row hrow
    rw [hissued, ← hid]
    apply h.memories row' hrow'
  · intro e he htype
    rw [hissued]
    apply h.embeddings e (hembeddings he) htype
  · rw [hissued, hsupplied]
    apply h.supplied
  · rw [hsupplied]
    apply h.once

/-- Every edit keeps the record. -/
theorem recorded_step {edit : Edit} (hrecorded : s.Recorded) (h : EditStep F codec s edit s') :
  s'.Recorded
  := by
  obtain ⟨tool, args, answer⟩ := edit
  cases tool with
  | saveMemory => apply recorded_saveMemory hrecorded h
  | updateMemory =>
      obtain ⟨id, content, now, -, -, hmemories, hembeddings, hsupplied, hissued⟩ :=
        of_updateMemory_step h
      apply hrecorded.mono _ (hembeddings ▸ List.Subset.refl _) hsupplied hissued
      intro row' hrow'
      obtain ⟨row, hrow, hupdate⟩ := (hmemories row').mp hrow'
      use row, hrow
      rw [← hupdate]
      split
      · rfl
      · rfl
  | deleteMemory =>
      obtain ⟨hmemories, hembeddings, hsupplied, hissued⟩ := of_deleteMemory_step h
      apply hrecorded.mono _ hembeddings hsupplied hissued
      intro row hrow
      exact ⟨row, hmemories hrow, rfl⟩

/-! #### Current contents -/

/-- A save keeps the embeddings those of current contents. -/
theorem current_saveMemory (hs : s.Current) (hrecorded : s.Recorded)
    (h : EditStep F codec s ⟨.saveMemory, args, answer⟩ s') :
  s'.Current
  := by
  obtain ⟨row, blob, hnew, hmemories, hembeddings, hsupplied, -⟩ := of_saveMemory_step h
  intro e he htype other hother hentity
  rw [hsupplied]
  rw [hmemories] at hother
  rcases hembeddings e he with he | ⟨he, hblob⟩
  · rcases List.mem_append.mp hother with hother | hother
    · apply List.mem_cons_of_mem
      apply hs e he htype other hother hentity
    · obtain rfl := List.mem_singleton.mp hother
      apply absurd (hrecorded.embeddings e he htype)
      rw [← hentity]
      apply hnew
  · rcases List.mem_append.mp hother with hother | hother
    · apply absurd (hrecorded.memories other hother)
      rw [hentity, he]
      apply hnew
    · obtain rfl := List.mem_singleton.mp hother
      rw [hblob]
      apply List.mem_cons_self

/-- A deletion keeps the embeddings those of current contents. -/
theorem current_deleteMemory (hs : s.Current)
    (h : EditStep F codec s ⟨.deleteMemory, args, answer⟩ s') :
  s'.Current
  := by
  obtain ⟨hmemories, hembeddings, hsupplied, -⟩ := of_deleteMemory_step h
  intro e he htype row hrow hentity
  rw [hsupplied]
  apply hs e (hembeddings he) htype row (hmemories hrow) hentity

/-- An update keeps the embeddings those of current contents exactly if it keeps the content of a
memory that has an embedding. -/
theorem current_updateMemory_iff (hs : s.Current) (hrecorded : s.Recorded)
    (h : EditStep F codec s ⟨.updateMemory, args, answer⟩ s') :
  s'.Current ↔ s.KeepsContent ⟨.updateMemory, args, answer⟩
  := by
  obtain ⟨id, content, now, hid, hcontent, hmemories, hembeddings, hsupplied, -⟩ :=
    of_updateMemory_step h
  constructor
  · intro hcurrent id' content' hid' hcontent' e he htype hentity row hrow hrowid
    obtain rfl := Option.some.inj (hid.symm.trans hid')
    obtain rfl := Option.some.inj (hcontent.symm.trans hcontent')
    have hupdated := (hmemories _).mpr ⟨row, hrow, if_pos hrowid⟩
    have hbefore := hs e he htype row hrow (hrowid.trans hentity.symm)
    rw [← hembeddings] at he
    have hnow := hcurrent e he htype _ hupdated (hrowid.trans hentity.symm)
    rw [hsupplied] at hnow
    apply congrArg Supplied.content (hrecorded.once _ hbefore _ hnow rfl)
  · intro hkeeps e he htype row' hrow' hentity
    rw [hembeddings] at he
    rw [hsupplied]
    obtain ⟨row, hrow, hupdate⟩ := (hmemories row').mp hrow'
    by_cases hrowid : row.id = id
    · rw [if_pos hrowid] at hupdate
      obtain rfl := hupdate
      have hkept := hkeeps id content hid hcontent e he htype (hentity.symm.trans hrowid) row
        hrow hrowid
      have hbefore := hs e he htype row hrow hentity
      rw [hkept] at hbefore
      apply hbefore
    · rw [if_neg hrowid] at hupdate
      obtain rfl := hupdate
      apply hs e he htype row hrow hentity

/-- Every edit keeps the embeddings those of current contents exactly if it keeps the content of
a memory that has an embedding. -/
theorem current_step_iff {edit : Edit} (hs : s.Current) (hrecorded : s.Recorded)
    (h : EditStep F codec s edit s') :
  s'.Current ↔ s.KeepsContent edit
  := by
  obtain ⟨tool, args, answer⟩ := edit
  cases tool with
  | saveMemory => apply iff_of_true (current_saveMemory hs hrecorded h) trivial
  | updateMemory => apply current_updateMemory_iff hs hrecorded h
  | deleteMemory => apply iff_of_true (current_deleteMemory hs h) trivial

/-! ### Runs -/

/-- A new file, from which nothing was supplied. -/
def EditState.New (s : EditState) : Prop :=
  s.tables = MemoryTables.empty ∧ s.supplied = []

omit [SingleFloat F] in
theorem EditState.New.current (h : s.New) :
  s.Current ∧ s.Recorded
  := by
  obtain ⟨htables, hsupplied⟩ := h
  constructor
  · intro e he
    rw [htables] at he
    cases he
  · constructor
    · rw [htables]
      rintro row ⟨⟩
    · rw [htables]
      rintro e ⟨⟩
    · rw [hsupplied]
      rintro x ⟨⟩
    · rw [hsupplied]
      rintro x ⟨⟩

/-- In every state of a run of successful edits of a new file each embedding of a memory was
supplied with the content that the memory has, exactly if no update gives a memory that has an
embedding another content; then a vector search ranks each memory by such an embedding. -/
theorem contents_embedded_iff {history : List (Edit × EditState)} (hnew : s.New)
    (h : Trace (EditStep F codec) s history) :
  (Trace.Throughout (fun _ _ s' => s'.Current) s history
    ↔ Trace.Throughout (fun s edit _ => s.KeepsContent edit) s history)
  ∧ (Trace.Throughout (fun s edit _ => s.KeepsContent edit) s history →
    ∀ (sorting : SortBy) (scan : Scan EmbeddingRow) (project : String) (query : List F)
      (limit : ℕ) (id : String) (similarity : F),
    ("memory", id, similarity)
      ∈ (Trace.last s history).tables.similarEntities sorting scan project query "default" limit →
    ∀ row ∈ (Trace.last s history).tables.memories, row.id = id →
      ∃ blob, similarity = cosineSimilarity query (blobToVec blob)
        ∧ ⟨id, blob, row.content⟩ ∈ (Trace.last s history).supplied)
  := by
  have hstep := fun (s : EditState) edit s' (hs : s.Current ∧ s.Recorded)
    (h : EditStep F codec s edit s') => current_step_iff hs.1 hs.2 h
  have hrecorded := fun (s : EditState) edit s' (hs : s.Current ∧ s.Recorded)
    (h : EditStep F codec s edit s') => recorded_step hs.2 h
  have hiff := Trace.throughout_iff hstep
    (fun s edit s' hs h hcurrent => ⟨hcurrent, hrecorded s edit s' hs h⟩) h hnew.current
  use hiff
  intro hkeeps sorting scan project query limit id similarity hfound row hrow hid
  have hcurrent : (Trace.last s history).Current := by
    apply Trace.Throughout.last hnew.current.1 (hiff.mpr hkeeps)
  have hsorted := SortBy.mem_sort.mp (List.mem_of_mem_take hfound)
  obtain ⟨e, he, hentity⟩ := List.mem_map.mp hsorted
  have hselected := List.mem_of_mem_filter ((scan.perm _).mem_iff.mp he)
  obtain ⟨htype, hentity⟩ := Prod.mk.inj hentity
  obtain ⟨hentityId, hsimilarity⟩ := Prod.mk.inj hentity
  use e.vector, hsimilarity.symm
  rw [← hid]
  apply hcurrent e hselected htype row hrow (hid.trans hentityId.symm)

end Edits

/-! ### A note that is updated -/

/-- The state of the tables when notes with a vector were supplied. -/
def noted (content : String) (supplied : List Supplied) : EditState where
  memory :=
    { db :=
        { tables :=
            { MemoryTables.empty with
              memories := [noteRow "m1" "alpha" content]
              embeddings := [(MemoryTools.memoryEmbedding "e1" "m1" "alpha"
                ((vectorOf F32 (vectorArgs "alpha" "first" [⟨0x3ff0000000000000⟩])).getD [])).row] }
          faults := [] }
      issued := ["e1", "m1"] }
  supplied := supplied

def savedNote : Edit :=
  ⟨.saveMemory, vectorArgs "alpha" "first" [⟨0x3ff0000000000000⟩], MemoryTools.savedAnswer "m1"⟩

def updatedNote (content : String) : Edit :=
  ⟨.updateMemory, .object [("content", .string content), ("memory_id", .string "m1")], success⟩

def newFile : EditState :=
  ⟨⟨⟨MemoryTables.empty, []⟩, []⟩, []⟩

/-- A note is saved with a vector, and updated. -/
theorem trace_updatedNote (content : String) :
  Trace (EditStep F32 noTags) newFile
    [(savedNote, noted "first" (savedNote.supplied F32)),
      (updatedNote content, noted content (savedNote.supplied F32))]
  := by
  have hnew : "e1" ∉ ["m1"] := by decide
  apply Trace.cons _ (Trace.cons _ Trace.nil)
  · constructor
    · refine Program.exec_step.mpr ⟨"m1", _, ⟨List.not_mem_nil, rfl⟩, ?_⟩
      refine Program.exec_step.mpr ⟨"", _, rfl, ?_⟩
      refine Program.exec_step.mpr ⟨.ok (), ⟨⟨{ MemoryTables.empty with
        memories := [noteRow "m1" "alpha" "first"] }, []⟩, ["m1"]⟩, ⟨rfl, rfl⟩, ?_⟩
      refine Program.exec_step.mpr ⟨"e1", _, ⟨hnew, rfl⟩, ?_⟩
      refine Program.exec_step.mpr ⟨.ok (), (noted "first" []).memory, ⟨rfl, rfl⟩, ?_⟩
      apply Program.exec_ret.mpr
      exact ⟨rfl, rfl⟩
    · rfl
  · constructor
    · refine Program.exec_step.mpr ⟨"", _, rfl, ?_⟩
      refine Program.exec_step.mpr ⟨.ok (), (noted content []).memory, ⟨rfl, rfl⟩, ?_⟩
      apply Program.exec_ret.mpr
      exact ⟨rfl, rfl⟩
    · rfl

/-- After an update the embedding is that of the old content. -/
theorem not_contents_embedded_updated :
  Trace (EditStep F32 noTags) newFile
    [(savedNote, noted "first" (savedNote.supplied F32)),
      (updatedNote "second", noted "second" (savedNote.supplied F32))]
  ∧ ¬ (noted "second" (savedNote.supplied F32)).Current
  := by
  use trace_updatedNote "second"
  intro hcurrent
  have hsupplied := hcurrent _ List.mem_cons_self rfl _ List.mem_cons_self rfl
  have hcontent := congrArg Supplied.content (List.mem_singleton.mp hsupplied)
  apply absurd hcontent
  decide

/-- The vector that came with the note, as it is stored. -/
def noteVector : List UInt8 :=
  vecToBlob ((vectorOf F32 (vectorArgs "alpha" "first" [⟨0x3ff0000000000000⟩])).getD [])

/-- An update that keeps the content keeps the embedding current, and a search ranks the note by
it. -/
theorem contents_embedded_kept :
  Trace.Throughout (fun _ _ s' => s'.Current) newFile
    [(savedNote, noted "first" (savedNote.supplied F32)),
      (updatedNote "first", noted "first" (savedNote.supplied F32))]
  ∧ ∃ blob, cosineSimilarity [(⟨0x3f800000⟩ : F32)] (blobToVec noteVector)
      = cosineSimilarity [⟨0x3f800000⟩] (blobToVec blob)
    ∧ ⟨"m1", blob, "first"⟩ ∈ savedNote.supplied F32
  := by
  have hkeeps : Trace.Throughout (fun s edit _ => s.KeepsContent edit) newFile
      [(savedNote, noted "first" (savedNote.supplied F32)),
        (updatedNote "first", noted "first" (savedNote.supplied F32))] := by
    refine ⟨trivial, ?_, trivial⟩
    intro id content _ hcontent e _ _ _ row hrow _
    obtain rfl := List.mem_singleton.mp hrow
    apply Option.some.inj hcontent
  have hfound : ("memory", "m1", cosineSimilarity [(⟨0x3f800000⟩ : F32)] (blobToVec noteVector))
      ∈ (noted "first" (savedNote.supplied F32)).tables.similarEntities SortBy.merge Scan.inserted
        "alpha" [⟨0x3f800000⟩] "default" 20 := by
    have hsorted := congrArg (List.take 20) (List.mergeSort_singleton
      ("memory", "m1", cosineSimilarity [(⟨0x3f800000⟩ : F32)] (blobToVec noteVector))
      (r := fun a b => byScore a.2.2 b.2.2 != .gt))
    apply Eq.subst hsorted.symm
    apply List.mem_cons_self
  obtain ⟨hiff, hsearch⟩ := contents_embedded_iff ⟨rfl, rfl⟩ (trace_updatedNote "first")
  use hiff.mpr hkeeps
  exact hsearch hkeeps SortBy.merge Scan.inserted "alpha" [⟨0x3f800000⟩] 20 "m1" _ hfound _
    List.mem_cons_self rfl

end OrchestraRag
