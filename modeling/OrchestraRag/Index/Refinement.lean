import OrchestraRag.Index.Directory
import OrchestraRag.Index.Workspace
import OrchestraRag.Library.Known
import OrchestraRag.Library.Trace
import OrchestraRag.Memory.Tools

/-!
# The index as a map

As long as the writer and the reader do not fail, the tools that write the index act on a map from
paths to documents: `index_file`, `index_directory` and `index_workspace_data` override it,
`delete_from_index` removes a path, `clear_index` empties it.  Whatever the index held before,
after any calls it holds what is known from them (`index_refines`): one document at each path that
they wrote, none at one that they deleted, and no other documents once one of them has cleared it.
-/

namespace OrchestraRag

/-! ### Requests -/

/-- A call of a tool that writes the index. -/
inductive IndexRequest where
  | indexFile (args : Json)
  | indexDirectory (args : Json)
  | indexWorkspaceData (args : Json)
  | deleteFromIndex (args : Json)
  | clearIndex (args : Json)

/-- What the calls need from outside. -/
structure RequestContext extends IndexContext where
  databases : String → Option OrchestraDb
  parseJson : String → Option Json

/-- What `index_workspace_data` needs. -/
def RequestContext.workspace (context : RequestContext) : WorkspaceContext :=
  ⟨context.databases, context.parseJson, context.jsonText⟩

/-- The step is one of the writer or of the reader. -/
def IndexOp.Indexes : IndexOp → Prop
  | .collectFiles _ _ _ => False
  | _ => True

/-- The writer and the reader do not fail, and the walk of a directory answers with what is
collected; when that panics, with an error. -/
def IndexOp.Works (treeSitter : TreeSitter) (walk : String → List WalkEntry) :
    Semantics IndexOp IndexAns IndexState :=
  fun op s x s' => op.Step s x s' ∧ op.AnswersWalk treeSitter walk x ∧ (op.Indexes → op.Succeeds x)

/-- Tool handler of `get_index_stats`, which counts the documents that the reader has loaded. -/
def handleGetIndexStats (indexPath : String) (s : IndexState) : Json :=
  .object (SortedMap.collect
    [("total_documents", countToJson s.loaded.length), ("index_path", .string indexPath)])

namespace IndexRequest

variable (context : RequestContext)

def program : IndexRequest → IndexThread
  | .indexFile args => handleIndexFile context.toIndexContext args
  | .indexDirectory args => handleIndexDirectory args
  | .indexWorkspaceData args => handleIndexWorkspaceData context.workspace args
  | .deleteFromIndex args => handleDeleteFromIndex args
  | .clearIndex args => handleClearIndex args

/-- What is known after a call, when `walk` is what the walk of a directory yields. -/
def follow (walk : String → List WalkEntry) (known : Known String IndexDocument) :
    IndexRequest → Known String IndexDocument
  | .indexFile args =>
      match indexFileDocument context.toIndexContext args with
      | .ok doc => known.upsertAll IndexDocument.path [doc]
      | .error _ => known
  | .indexDirectory args =>
      match walkArguments args with
      | .ok (root, exclude, supported) =>
          let kept := if clearFirst args then Known.empty else known
          match collectFilesWithSymbols context.treeSitter exclude supported .new (walk root) with
          | .ok files => kept.upsertAll IndexDocument.path (files.map CollectedFile.document)
          | .error _ => kept
      | .error _ => known
  | .indexWorkspaceData args =>
      match recordsRead context.workspace args with
      | .ok records =>
          known.upsertAll IndexDocument.path (records.map context.workspace.document)
      | .error _ => known
  | .deleteFromIndex args =>
      match requiredText args "path" with
      | .ok path => known.delete path
      | .error _ => known
  | .clearIndex _ => .empty

/-- The call comes to a commit. -/
def Publishes (walk : String → List WalkEntry) : IndexRequest → Prop
  | .indexFile args => (indexFileDocument context.toIndexContext args).isOk
  | .indexDirectory args =>
      match walkArguments args with
      | .ok (root, exclude, supported) => clearFirst args
          ∨ (collectFilesWithSymbols context.treeSitter exclude supported .new (walk root)).isOk
      | .error _ => False
  | .indexWorkspaceData args => (recordsRead context.workspace args).isOk
  | .deleteFromIndex args => (requiredText args "path").isOk
  | .clearIndex _ => True

end IndexRequest

/-- Everything is published, and the reader has loaded it. -/
structure IndexState.Settled (s : IndexState) : Prop where
  queued : s.store.queued = []
  loaded : s.loaded = s.store.published

theorem IndexState.Settled.held {s : IndexState} (h : s.Settled) :
  s.held = s.loaded
  := by
  rw [IndexState.held, Staged.current, h.queued, h.loaded]
  rfl

/-! ### What a call does -/

section Exec

variable {treeSitter : TreeSitter} {walk : String → List WalkEntry} {s s' : IndexState}

theorem reliable_of_works {op : IndexOp} {x : IndexAns op} (hop : op.Indexes)
    (h : op.Works treeSitter walk s x s') :
  IndexOp.Reliable op s x s'
  := ⟨h.1, fun _ => h.2.2 hop⟩

/-- A step of the writer or of the reader. -/
theorem exec_works {α : Type} {op : IndexOp}
    {k : IndexAns op → Program IndexOp IndexAns (Outcome String α)} {r : Outcome String α}
    (h : Program.Exec (IndexOp.Works treeSitter walk) (.step op k) s r s') (hop : op.Indexes) :
  ∃ x s₁, op.Succeeds x ∧ IndexOp.Reliable op s x s₁ ∧ s₁.store = op.after s.store
    ∧ Program.Exec (IndexOp.Works treeSitter walk) (k x) s₁ r s'
  := by
  obtain ⟨x, s₁, hworks, h⟩ := Program.exec_step.mp h
  have hreliable := reliable_of_works hop hworks
  obtain ⟨hstore, hsucceeds⟩ := IndexOp.store_of_step hreliable
  exact ⟨x, s₁, hsucceeds, hreliable, hstore, h⟩

/-- After everything was published, a reload settles the index. -/
theorem settled_of_reload {x : IndexAns .reload} (hqueued : s.store.queued = [])
    (h : IndexOp.Reliable .reload s x s') :
  s'.Settled ∧ s'.store = s.store
  := by
  obtain ⟨hstore, rfl⟩ := IndexOp.store_of_step h
  obtain ⟨⟨t, rfl, rfl | rfl⟩, -⟩ := h
  · exact ⟨⟨hqueued, rfl⟩, rfl⟩
  · exact ⟨⟨hqueued, rfl⟩, rfl⟩

/-- A look at the clock leaves the index settled. -/
theorem settled_of_elapsedMs {x : IndexAns .elapsedMs} (hsettled : s.Settled)
    (h : IndexOp.Step .elapsedMs s x s') :
  s'.Settled ∧ s'.store = s.store
  := by
  obtain ⟨t, rfl, rfl | rfl⟩ := h
  · exact ⟨hsettled, rfl⟩
  · exact ⟨⟨hsettled.queued, rfl⟩, rfl⟩

/-- `index_file` replaces the document at the path. -/
theorem exec_indexFile {context : IndexContext} {args : Json} {doc : IndexDocument}
    {r : Outcome String Json} (hdoc : indexFileDocument context args = .ok doc)
    (h : Program.Exec (IndexOp.Works treeSitter walk) (handleIndexFile context args) s r s') :
  s'.Settled ∧ s'.held = Staged.upsertAll IndexDocument.path s.held [doc]
  := by
  rw [handleIndexFile, hdoc] at h
  obtain ⟨_, s₁, rfl, -, hdelete, h⟩ := exec_works h trivial
  obtain ⟨_, s₂, rfl, -, hadd, h⟩ := exec_works h trivial
  obtain ⟨_, s₃, rfl, -, hcommit, h⟩ := exec_works h trivial
  obtain ⟨_, s₄, rfl, hreload, -, h⟩ := exec_works h trivial
  obtain ⟨-, rfl⟩ := Program.exec_ret.mp h
  have hqueued : s₃.store.queued = [] := by
    rw [hcommit]
    rfl
  obtain ⟨hsettled, hstore⟩ := settled_of_reload hqueued hreload
  use hsettled
  rw [IndexState.held, hstore, hcommit, IndexOp.after, Staged.current_publish, hadd, IndexOp.after,
    Staged.current_queue, hdelete, IndexOp.after, Staged.current_queue]
  rfl

/-- `delete_from_index` removes the documents at the path. -/
theorem exec_deleteFromIndex {args : Json} {path : String} {r : Outcome String Json}
    (hpath : requiredText args "path" = .ok path)
    (h : Program.Exec (IndexOp.Works treeSitter walk) (handleDeleteFromIndex args) s r s') :
  s'.Settled ∧ s'.held = (Change.delete path).apply IndexDocument.path s.held
  := by
  rw [handleDeleteFromIndex, hpath] at h
  obtain ⟨_, s₁, rfl, -, hdelete, h⟩ := exec_works h trivial
  obtain ⟨_, s₂, rfl, -, hcommit, h⟩ := exec_works h trivial
  obtain ⟨_, s₃, rfl, hreload, -, h⟩ := exec_works h trivial
  obtain ⟨-, rfl⟩ := Program.exec_ret.mp h
  have hqueued : s₂.store.queued = [] := by
    rw [hcommit]
    rfl
  obtain ⟨hsettled, hstore⟩ := settled_of_reload hqueued hreload
  use hsettled
  rw [IndexState.held, hstore, hcommit, IndexOp.after, Staged.current_publish, hdelete,
    IndexOp.after, Staged.current_queue]

/-- Clearing removes all documents. -/
theorem exec_clear {r : Outcome String (Except String Unit)}
    (h : Program.Exec (IndexOp.Works treeSitter walk) IndexManager.clearIndex s r s') :
  r = .ok (.ok ()) ∧ s'.Settled ∧ s'.held = []
  := by
  obtain ⟨_, s₁, rfl, -, hclear, h⟩ := exec_works h trivial
  obtain ⟨_, s₂, rfl, hreload, -, h⟩ := exec_works h trivial
  obtain ⟨rfl, rfl⟩ := Program.exec_ret.mp h
  have hstore₁ : s₁.store = ⟨[], []⟩ := by
    rw [hclear]
    apply cleared_store s
  have hqueued : s₁.store.queued = [] := by rw [hstore₁]
  obtain ⟨hsettled, hstore⟩ := settled_of_reload hqueued hreload
  use rfl, hsettled
  rw [IndexState.held, hstore, hstore₁]
  rfl

/-- A collected file replaces the document at its path. -/
theorem exec_indexCollected {counts : IndexCounts} {file : CollectedFile}
    {r : Outcome String IndexCounts}
    (h : Program.Exec (IndexOp.Works treeSitter walk) (indexCollected counts file) s r s') :
  (∃ counts', r = .ok counts')
    ∧ s'.held = Staged.upsert IndexDocument.path s.held file.document
  := by
  obtain ⟨_, s₁, rfl, -, hdelete, h⟩ := exec_works h trivial
  obtain ⟨_, s₂, rfl, -, hadd, h⟩ := exec_works h trivial
  have hheld : s₂.held = Staged.upsert IndexDocument.path s.held file.document := by
    rw [IndexState.held, hadd, IndexOp.after, Staged.current_queue, hdelete, IndexOp.after,
      Staged.current_queue]
    rfl
  by_cases hbatch : (counts.added file.language).indexed % 100 = 0
  · simp only [hbatch, if_true] at h
    obtain ⟨_, s₃, rfl, -, hcommit, h⟩ := exec_works h trivial
    obtain ⟨rfl, rfl⟩ := Program.exec_ret.mp h
    use ⟨_, rfl⟩
    rw [IndexState.held, hcommit, IndexOp.after, Staged.current_publish]
    apply hheld
  · simp only [hbatch, if_false] at h
    obtain ⟨rfl, rfl⟩ := Program.exec_ret.mp h
    exact ⟨⟨_, rfl⟩, hheld⟩

theorem exec_indexFiles {counts : IndexCounts} {files : List CollectedFile}
    {r : Outcome String IndexCounts}
    (h : Program.Exec (IndexOp.Works treeSitter walk) (indexFiles counts files) s r s') :
  (∃ counts', r = .ok counts')
    ∧ s'.held
      = Staged.upsertAll IndexDocument.path s.held (files.map CollectedFile.document)
  := by
  induction files generalizing counts s with
  | nil =>
      obtain ⟨rfl, rfl⟩ := Program.exec_ret.mp h
      exact ⟨⟨_, rfl⟩, rfl⟩
  | cons file files ih =>
      rcases Program.exec_fallible_bind.mp h with ⟨counts', s₁, hfirst, hrest⟩ | ⟨e, -, hfirst⟩
      · obtain ⟨-, hreplaced⟩ := exec_indexCollected hfirst
        obtain ⟨hcounts, hheld⟩ := ih hrest
        use hcounts
        rw [hheld, hreplaced]
        rfl
      · obtain ⟨⟨counts', ⟨⟩⟩, -⟩ := exec_indexCollected hfirst

/-- The files of a walk replace the documents at their paths, one after another. -/
theorem exec_indexWalk {files : List CollectedFile} {r : Outcome String Json}
    (h : Program.Exec (IndexOp.Works treeSitter walk) (indexWalk files) s r s') :
  s'.Settled ∧ s'.held
    = Staged.upsertAll IndexDocument.path s.held (files.map CollectedFile.document)
  := by
  rcases Program.exec_fallible_bind.mp h with ⟨counts, s₁, hfiles, h⟩ | ⟨e, -, hfiles⟩
  · obtain ⟨-, hheld⟩ := exec_indexFiles hfiles
    obtain ⟨_, s₂, rfl, -, hcommit, h⟩ := exec_works h trivial
    obtain ⟨_, s₃, rfl, hreload, -, h⟩ := exec_works h trivial
    obtain ⟨_, s₄, -, hclock, -, h⟩ := exec_works h trivial
    obtain ⟨-, rfl⟩ := Program.exec_ret.mp h
    have hqueued : s₂.store.queued = [] := by
      rw [hcommit]
      rfl
    obtain ⟨hsettled, hstore⟩ := settled_of_reload hqueued hreload
    obtain ⟨hsettled', hstore'⟩ := settled_of_elapsedMs hsettled hclock.1
    use hsettled'
    rw [IndexState.held, hstore', hstore, hcommit, IndexOp.after, Staged.current_publish, ← hheld]
  · obtain ⟨⟨counts', ⟨⟩⟩, -⟩ := exec_indexFiles hfiles

/-- The walk of a directory is collected and indexed; when that panics, the index is left. -/
theorem exec_indexTree {root : String} {exclude supported : List String} {r : Outcome String Json}
    (h : Program.Exec (IndexOp.Works treeSitter walk) (indexTree root exclude supported) s r s') :
  match collectFilesWithSymbols treeSitter exclude supported .new (walk root) with
  | .ok files => s'.Settled ∧ s'.held
      = Staged.upsertAll IndexDocument.path s.held (files.map CollectedFile.document)
  | .error _ => s'.held = s.held ∧ (s.Settled → s'.Settled)
  := by
  obtain ⟨x, s₁, ⟨hstep, hwalk, -⟩, h⟩ := Program.exec_step.mp h
  have hanswer : match collectFilesWithSymbols treeSitter exclude supported .new (walk root) with
      | .ok files => (x : Except String (List CollectedFile)) = .ok files
      | .error _ => ∃ e, (x : Except String (List CollectedFile)) = .error e := hwalk
  have hsame : s₁.held = s.held ∧ (s.Settled → s₁.Settled) := by
    obtain ⟨t, rfl, rfl | rfl⟩ := hstep
    · exact ⟨rfl, id⟩
    · exact ⟨rfl, fun hsettled => ⟨hsettled.queued, rfl⟩⟩
  split at hanswer
  case h_1 files _ =>
      rw [hanswer] at h
      rw [← hsame.1]
      apply exec_indexWalk h
  case h_2 e _ =>
      obtain ⟨e', rfl⟩ := hanswer
      obtain ⟨-, rfl⟩ := Program.exec_ret.mp h
      exact hsame

/-- `index_directory` indexes the tree, after it has cleared the index if it is told to. -/
theorem exec_indexDirectory {args : Json} {root : String} {exclude supported : List String}
    {r : Outcome String Json} (hargs : walkArguments args = .ok (root, exclude, supported))
    (h : Program.Exec (IndexOp.Works treeSitter walk) (handleIndexDirectory args) s r s') :
  ∃ s₁ r₁, (clearFirst args = false → s₁ = s)
    ∧ (clearFirst args = true → s₁.Settled ∧ s₁.held = [])
    ∧ Program.Exec (IndexOp.Works treeSitter walk) (indexTree root exclude supported) s₁ r₁ s'
  := by
  rw [handleIndexDirectory, hargs] at h
  cases hclear : clearFirst args with
  | false =>
      rw [hclear] at h
      use s, r
      refine ⟨fun _ => rfl, ?_, h⟩
      rintro ⟨⟩
  | true =>
      rw [hclear] at h
      have hcall : Program.Exec (IndexOp.Works treeSitter walk)
          (do
            let cleared ← IndexManager.clearIndex
            IndexM.named "clear_index failed: " cleared
            indexTree root exclude supported : IndexM Json) s r s' := h
      rcases Program.exec_fallible_bind.mp hcall with ⟨cleared, s₁, hcleared, hrest⟩ | ⟨e, -, hbad⟩
      · obtain ⟨⟨⟩, hsettled, hheld⟩ := exec_clear hcleared
        use s₁, r
        refine ⟨?_, fun _ => ⟨hsettled, hheld⟩, hrest⟩
        rintro ⟨⟩
      · obtain ⟨⟨⟩, -⟩ := exec_clear hbad

end Exec

/-! #### Workspace records -/

section Workspace

variable {context : WorkspaceContext}

theorem indexes_indexRecords (counts : WorkspaceCounts) (records : List WorkspaceRecord) :
  Program.Uses IndexOp.Indexes (indexRecords context counts records)
  := by
  induction records generalizing counts with
  | nil => apply Program.Uses.ret
  | cons record records ih =>
      apply Program.uses_fallible_bind _ ih
      apply @Program.Uses.step IndexOp IndexAns _ _ (.deleteDocument record.path) _ trivial
      intro _
      apply @Program.Uses.step IndexOp IndexAns _ _ (.addDocument (context.document record)) _
        trivial
      rintro (e | ⟨⟩)
      · apply Program.Uses.ret
      · by_cases hbatch : (counts.added record.entityType).indexed % 200 = 0
        · simp only [hbatch, if_true]
          apply @Program.Uses.step IndexOp IndexAns _ _ .commit _ trivial
          rintro (e | ⟨⟩)
          · apply Program.Uses.ret
          · apply Program.Uses.ret
        · simp only [hbatch, if_false]
          apply Program.Uses.ret

theorem indexes_finishWorkspace (totalRead : ℕ) (counts : WorkspaceCounts) :
  Program.Uses IndexOp.Indexes (finishWorkspace totalRead counts)
  := by
  apply @Program.Uses.step IndexOp IndexAns _ _ .commit _ trivial
  rintro (e | ⟨⟩)
  · apply Program.Uses.ret
  apply @Program.Uses.step IndexOp IndexAns _ _ .reload _ trivial
  rintro (e | ⟨⟩)
  · apply Program.Uses.ret
  apply @Program.Uses.step IndexOp IndexAns _ _ .elapsedMs _ trivial
  intro durationMs
  apply Program.Uses.ret

/-- `index_workspace_data` replaces the documents at the paths of the records. -/
theorem exec_indexWorkspaceData {treeSitter : TreeSitter} {walk : String → List WalkEntry}
    {s s' : IndexState} {args : Json} {records : List WorkspaceRecord} {r : Outcome String Json}
    (hread : recordsRead context args = .ok records)
    (h : Program.Exec (IndexOp.Works treeSitter walk) (handleIndexWorkspaceData context args)
      s r s') :
  s'.Settled ∧ s'.held
    = Staged.upsertAll IndexDocument.path s.held (records.map context.document)
  := by
  have huses : Program.Uses IndexOp.Indexes (handleIndexWorkspaceData context args) := by
    rw [handle_of_read hread]
    apply Program.uses_fallible_bind (indexes_indexRecords _ _)
    apply indexes_finishWorkspace
  have hreliable := h.mono_of_uses (fun _ _ _ _ => reliable_of_works) huses
  obtain ⟨-, hstore, hloaded⟩ := exec_handleIndexWorkspaceData hread hreliable
  constructor
  · constructor
    · rw [hstore]
    · apply hloaded
  · rw [IndexState.held, hstore]
    rfl

end Workspace

/-! ### The map -/

section Follow

variable {context : RequestContext} {walk : String → List WalkEntry} {s s' : IndexState}
  {known : Known String IndexDocument}

theorem follow_indexDirectory {args : Json} {root : String} {exclude supported : List String}
    {r : Outcome String Json} (hargs : walkArguments args = .ok (root, exclude, supported))
    (h : Program.Exec (IndexOp.Works context.treeSitter walk) (handleIndexDirectory args) s r s')
    (hknown : known.Holds IndexDocument.path s.held) :
  ((IndexRequest.indexDirectory args).follow context walk known).Holds IndexDocument.path s'.held
    ∧ (s.Settled ∨ (IndexRequest.indexDirectory args).Publishes context walk → s'.Settled)
  := by
  obtain ⟨s₁, r₁, hkept, hcleared, htree⟩ := exec_indexDirectory hargs h
  have hknown₁ : (if clearFirst args then Known.empty else known).Holds IndexDocument.path s₁.held
      ∧ (s.Settled ∨ clearFirst args = true → s₁.Settled) := by
    cases hclear : clearFirst args with
    | false =>
        rw [hkept hclear]
        use hknown
        rintro (hsettled | ⟨⟨⟩⟩)
        apply hsettled
    | true =>
        rw [(hcleared hclear).2]
        exact ⟨Known.holds_empty, fun _ => (hcleared hclear).1⟩
  have htree := exec_indexTree htree
  simp only [IndexRequest.follow, IndexRequest.Publishes, hargs]
  split at htree
  case h_1 files hfiles =>
      rw [hfiles, htree.2]
      exact ⟨hknown₁.1.upsertAll _, fun _ => htree.1⟩
  case h_2 e he =>
      rw [he, htree.1]
      use hknown₁.1
      rintro (hsettled | hclear | ⟨⟨⟩⟩)
      · apply htree.2 (hknown₁.2 (Or.inl hsettled))
      · apply htree.2 (hknown₁.2 (Or.inr hclear))

/-- After a call the index holds what is known from it. -/
theorem IndexRequest.follow_holds {request : IndexRequest} {r : Outcome String Json}
    (h : Program.Exec (IndexOp.Works context.treeSitter walk) (request.program context) s r s')
    (hknown : known.Holds IndexDocument.path s.held) :
  (request.follow context walk known).Holds IndexDocument.path s'.held
    ∧ (s.Settled ∨ request.Publishes context walk → s'.Settled)
  := by
  -- A call without the arguments that it needs fails before its first step.
  cases request with
  | indexFile args =>
      simp only [follow, Publishes]
      cases hdoc : indexFileDocument context.toIndexContext args with
      | error e =>
          rw [program, handleIndexFile, hdoc] at h
          obtain ⟨-, rfl⟩ := Program.exec_ret.mp h
          exact ⟨hknown, fun hsettled => hsettled.resolve_right Bool.false_ne_true⟩
      | ok doc =>
          obtain ⟨hsettled, hheld⟩ := exec_indexFile hdoc h
          rw [hheld]
          exact ⟨hknown.upsertAll _, fun _ => hsettled⟩
  | indexDirectory args =>
      cases hargs : walkArguments args with
      | error e =>
          rw [program, handleIndexDirectory, hargs] at h
          obtain ⟨-, rfl⟩ := Program.exec_ret.mp h
          simp only [follow, Publishes, hargs]
          exact ⟨hknown, fun hsettled => hsettled.resolve_right id⟩
      | ok arguments =>
          obtain ⟨root, exclude, supported⟩ := arguments
          apply follow_indexDirectory hargs h hknown
  | indexWorkspaceData args =>
      simp only [follow, Publishes]
      cases hread : recordsRead context.workspace args with
      | error e =>
          rw [program, handleIndexWorkspaceData, hread] at h
          obtain ⟨-, rfl⟩ := Program.exec_ret.mp h
          exact ⟨hknown, fun hsettled => hsettled.resolve_right Bool.false_ne_true⟩
      | ok records =>
          obtain ⟨hsettled, hheld⟩ := exec_indexWorkspaceData hread h
          rw [hheld]
          exact ⟨hknown.upsertAll _, fun _ => hsettled⟩
  | deleteFromIndex args =>
      simp only [follow, Publishes]
      cases hpath : requiredText args "path" with
      | error e =>
          rw [program, handleDeleteFromIndex, hpath] at h
          obtain ⟨-, rfl⟩ := Program.exec_ret.mp h
          exact ⟨hknown, fun hsettled => hsettled.resolve_right Bool.false_ne_true⟩
      | ok path =>
          obtain ⟨hsettled, hheld⟩ := exec_deleteFromIndex hpath h
          rw [hheld]
          exact ⟨hknown.delete path, fun _ => hsettled⟩
  | clearIndex args =>
      rcases Program.exec_fallible_bind.mp h with ⟨cleared, s₁, hcleared, hrest⟩ | ⟨e, -, hbad⟩
      · obtain ⟨⟨⟩, hsettled, hheld⟩ := exec_clear hcleared
        obtain ⟨-, rfl⟩ := Program.exec_ret.mp hrest
        rw [hheld]
        exact ⟨Known.holds_empty, fun _ => hsettled⟩
      · obtain ⟨⟨⟩, -⟩ := exec_clear hbad

end Follow

/-! ### Runs -/

/-- A call, and what a walk of a directory yields while it runs. -/
abbrev IndexEvent : Type :=
  IndexRequest × (String → List WalkEntry)

/-- One call after another. -/
def HandlesRequest (context : RequestContext) (s : IndexState) (e : IndexEvent) (s' : IndexState) :
    Prop :=
  ∃ r, Program.Exec (IndexOp.Works context.treeSitter e.2) (e.1.program context) s r s'

/-- What is known after some calls. -/
def followAll (context : RequestContext) (known : Known String IndexDocument)
    (events : List IndexEvent) : Known String IndexDocument :=
  events.foldl (fun known e => e.1.follow context e.2 known) known

section Runs

variable {context : RequestContext} {known : Known String IndexDocument}

theorem follows_of_trace {s : IndexState} {steps : List (IndexEvent × IndexState)}
    (h : Trace (HandlesRequest context) s steps) (hknown : known.Holds IndexDocument.path s.held) :
  (followAll context known (steps.map Prod.fst)).Holds IndexDocument.path (Trace.last s steps).held
    ∧ ((s.Settled ∨ ∃ e ∈ steps.map Prod.fst, e.1.Publishes context e.2) →
      (Trace.last s steps).Settled)
  := by
  induction h generalizing known with
  | nil =>
      use hknown
      rintro (hsettled | ⟨e, ⟨⟩, -⟩)
      apply hsettled
  | cons hstep _ ih =>
      obtain ⟨r, hexec⟩ := hstep
      obtain ⟨hheld, hsettled⟩ := IndexRequest.follow_holds hexec hknown
      obtain ⟨hlast, hend⟩ := ih hheld
      use hlast
      rintro (hs | ⟨e, he, hpublishes⟩)
      · apply hend (Or.inl (hsettled (Or.inl hs)))
      · rcases List.mem_cons.mp he with rfl | he
        · apply hend (Or.inl (hsettled (Or.inr hpublishes)))
        · exact hend (Or.inr ⟨e, he, hpublishes⟩)

/-- Everything is published and loaded, and as known. -/
structure IndexState.Agrees (s : IndexState) (known : Known String IndexDocument) : Prop where
  settled : s.Settled
  loaded : known.Holds IndexDocument.path s.loaded

/-- `get_index_stats` counts the paths at which there are documents, when all of them are known. -/
theorem IndexState.Agrees.stats {s : IndexState} (h : s.Agrees known)
    (hall : known.keys = Set.univ) (indexPath : String) :
  ∃ paths : List String, paths.Nodup ∧ (∀ path, path ∈ paths ↔ (known.document path).isSome)
    ∧ (handleGetIndexStats indexPath s).get "total_documents" = some (countToJson paths.length)
  := by
  use s.loaded.map IndexDocument.path
  refine ⟨h.loaded.unique hall, ?_, ?_⟩
  · intro path
    apply h.loaded.has_iff (hall ▸ Set.mem_univ path)
  · rw [handleGetIndexStats, Json.get_collect, List.length_map]
    rfl

/-- Whatever the index held before, after calls one of which came to a commit the snapshot of the
reader holds what is known from them, and the statistics count it. -/
theorem index_refines {s : IndexState} {steps : List (IndexEvent × IndexState)}
    (h : Trace (HandlesRequest context) s steps) (hknown : known.Holds IndexDocument.path s.held)
    (hpublishes : ∃ e ∈ steps.map Prod.fst, e.1.Publishes context e.2) :
  (Trace.last s steps).Agrees (followAll context known (steps.map Prod.fst))
    ∧ ((followAll context known (steps.map Prod.fst)).keys = Set.univ →
      ∀ indexPath, ∃ paths : List String, paths.Nodup
        ∧ (∀ path, path ∈ paths
          ↔ ((followAll context known (steps.map Prod.fst)).document path).isSome)
        ∧ (handleGetIndexStats indexPath (Trace.last s steps)).get "total_documents"
          = some (countToJson paths.length))
  := by
  obtain ⟨hheld, hend⟩ := follows_of_trace h hknown
  have hsettled := hend (Or.inr hpublishes)
  rw [hsettled.held] at hheld
  have hagrees : (Trace.last s steps).Agrees (followAll context known (steps.map Prod.fst)) :=
    ⟨hsettled, hheld⟩
  exact ⟨hagrees, hagrees.stats⟩

end Runs

/-! ### A run of calls -/

theorem works_total {treeSitter : TreeSitter} {walk : String → List WalkEntry} (op : IndexOp)
    (s : IndexState) :
  ∃ x s', IndexOp.Works treeSitter walk op s x s'
  := by
  cases op with
  | collectFiles root exclude supported =>
      cases hfiles : collectFilesWithSymbols treeSitter exclude supported .new (walk root) with
      | ok files =>
          use (Except.ok files : Except String (List CollectedFile)), s
          exact ⟨⟨_, rfl, Or.inl rfl⟩, IndexOp.answersWalk_ok.mpr hfiles, False.elim⟩
      | error e =>
          use (Except.error "" : Except String (List CollectedFile)), s
          have hanswer : match collectFilesWithSymbols treeSitter exclude supported .new
                (walk root) with
              | .ok files => (Except.error "" : Except String (List CollectedFile)) = .ok files
              | .error _ => ∃ e, (Except.error "" : Except String (List CollectedFile)) = .error e
              := by
            rw [hfiles]
            exact ⟨"", rfl⟩
          exact ⟨⟨_, rfl, Or.inl rfl⟩, hanswer, False.elim⟩
  | _ =>
      obtain ⟨x, s', h⟩ := reliable_total _ s
      exact ⟨x, s', h.1, trivial, fun _ => h.2 trivial⟩

/-- Any calls may run one after another. -/
theorem exists_trace (context : RequestContext) (s : IndexState) (events : List IndexEvent) :
  ∃ steps, Trace (HandlesRequest context) s steps ∧ steps.map Prod.fst = events
  := by
  induction events generalizing s with
  | nil => exact ⟨[], Trace.nil, rfl⟩
  | cons e events ih =>
      obtain ⟨r, s', h⟩ := Program.exec_total works_total (e.1.program context) s
      obtain ⟨steps, htrace, hevents⟩ := ih s'
      use (e, s') :: steps, Trace.cons ⟨r, h⟩ htrace
      rw [List.map_cons, hevents]

/-- An index in which something was queued when the service stopped. -/
def unsettledIndex : IndexState :=
  ⟨⟨[noteDocument, noteDocument], [.add noteDocument]⟩, []⟩

/-- The index is cleared, and a note is indexed. -/
def clearAndIndex : List IndexEvent :=
  [(.clearIndex .null, fun _ => []), (.indexFile noteFileArgs, fun _ => [])]

/-- Afterwards there is the note, once. -/
theorem index_refines_note :
  ∃ steps, Trace (HandlesRequest ⟨plainContext, fun _ => none, fun _ => none⟩) unsettledIndex steps
    ∧ (Trace.last unsettledIndex steps).Agrees
      (Known.empty.upsertAll IndexDocument.path [noteDocument])
    ∧ ∀ indexPath, ∃ paths : List String, paths.Nodup
      ∧ (∀ path, path ∈ paths ↔ ((Known.empty.upsertAll IndexDocument.path
        [noteDocument]).document path).isSome)
      ∧ (handleGetIndexStats indexPath (Trace.last unsettledIndex steps)).get "total_documents"
        = some (countToJson paths.length)
  := by
  obtain ⟨steps, htrace, hevents⟩ :=
    exists_trace ⟨plainContext, fun _ => none, fun _ => none⟩ unsettledIndex clearAndIndex
  have hpublishes : ∃ e ∈ steps.map Prod.fst, e.1.Publishes
      ⟨plainContext, fun _ => none, fun _ => none⟩ e.2 := by
    rw [hevents]
    exact ⟨_, List.mem_cons_self, trivial⟩
  have hrefines := index_refines htrace Known.holds_nothing hpublishes
  have hfollow : followAll ⟨plainContext, fun _ => none, fun _ => none⟩ .nothing clearAndIndex
      = Known.empty.upsertAll IndexDocument.path [noteDocument] := rfl
  rw [hevents, hfollow] at hrefines
  use steps, htrace, hrefines.1
  apply hrefines.2
  apply Set.univ_union

end OrchestraRag
