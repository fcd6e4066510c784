import OrchestraRag.Library.Outcome
import OrchestraRag.Library.Program
import OrchestraRag.Library.Staged

/-!
# The search index

The index of Tantivy: the writer queues deletions and additions, a commit publishes them, and
the reader loads what was published, when it is told to and by itself at any time.  Each call of
`IndexWriter` and of the reader is a step of a program; between two of them other programs may
run.

Any step may fail.  A failed addition or deletion queues nothing.  A commit that fails may have
published what was queued or not, and may have lost it.
-/

namespace OrchestraRag

/-- A document of the index. -/
structure IndexDocument where
  path : String
  content : String
  language : String
  symbols : String
  metadata : String
  deriving DecidableEq

/-- A file collected from the directory walk, with its symbols. -/
structure CollectedFile where
  path : String
  content : String
  language : String
  symbols : String
  skipped : Bool
  deriving DecidableEq

/-- The documents of the writer, and the snapshot that the reader has loaded. -/
structure IndexState where
  store : Staged String IndexDocument
  loaded : List IndexDocument

namespace IndexState

/-- The index of a new directory. -/
def empty : IndexState :=
  ⟨⟨[], []⟩, []⟩

def queue (s : IndexState) (change : Change String IndexDocument) : IndexState :=
  { s with store := s.store.queue change }

def publish (s : IndexState) : IndexState :=
  { s with store := s.store.publish IndexDocument.path }

def rollback (s : IndexState) : IndexState :=
  { s with store := s.store.rollback }

/-- The reader loads the last snapshot that was published. -/
def reload (s : IndexState) : IndexState :=
  { s with loaded := s.store.published }

end IndexState

/-! ### Steps -/

/-- A step of a program on the index: a call of the writer or of the reader, the walk of a
directory, or a look at the clock. -/
inductive IndexOp where
  | deleteDocument (path : String)
  | addDocument (doc : IndexDocument)
  | commit
  | clear
  | reload
  | collectFiles (root : String) (exclude extensions : List String)
  | elapsedMs

/-- What a step answers. -/
def IndexAns : IndexOp → Type
  | .deleteDocument _ => Except String Unit
  | .addDocument _ => Except String Unit
  | .commit => Except String Unit
  | .clear => Except String Unit
  | .reload => Except String Unit
  | .collectFiles _ _ _ => Except String (List CollectedFile)
  | .elapsedMs => UInt64

namespace IndexOp

/-- What a commit leaves when it fails. -/
def CommitFails (s s' : IndexState) : Prop :=
  s' = s ∨ s' = s.rollback ∨ s' = s.publish

/-- What a step does to the index. -/
def Effect : Semantics IndexOp IndexAns IndexState
  | .deleteDocument path, s, x, s' =>
      match (x : Except String Unit) with
      | .ok () => s' = s.queue (.delete path)
      | .error _ => s' = s
  | .addDocument doc, s, x, s' =>
      match (x : Except String Unit) with
      | .ok () => s' = s.queue (.add doc)
      | .error _ => s' = s
  | .commit, s, x, s' =>
      match (x : Except String Unit) with
      | .ok () => s' = s.publish
      | .error _ => CommitFails s s'
  | .clear, s, x, s' =>
      match (x : Except String Unit) with
      | .ok () => s' = (s.queue .deleteAll).publish
      | .error _ => s' = s ∨ CommitFails (s.queue .deleteAll) s'
  | .reload, s, x, s' =>
      match (x : Except String Unit) with
      | .ok () => s' = s.reload
      | .error _ => s' = s
  | .collectFiles _ _ _, s, _, s' => s' = s
  | .elapsedMs, s, _, s' => s' = s

/-- A step, after which the reader may reload by itself. -/
def Step : Semantics IndexOp IndexAns IndexState :=
  fun op s x s' => ∃ t, op.Effect s x t ∧ (s' = t ∨ s' = t.reload)

/-- Whether a step succeeds with an answer. -/
def Succeeds : (op : IndexOp) → IndexAns op → Prop
  | .deleteDocument _, x => (x : Except String Unit) = .ok ()
  | .addDocument _, x => (x : Except String Unit) = .ok ()
  | .commit, x => (x : Except String Unit) = .ok ()
  | .clear, x => (x : Except String Unit) = .ok ()
  | .reload, x => (x : Except String Unit) = .ok ()
  | .collectFiles _ _ _, x => ∃ files, (x : Except String (List CollectedFile)) = .ok files
  | .elapsedMs, _ => True

/-- Steps of which those in `P` succeed. -/
def StepWhere (P : IndexOp → Prop) : Semantics IndexOp IndexAns IndexState :=
  fun op s x s' => op.Step s x s' ∧ (P op → op.Succeeds x)

end IndexOp

/-! ### Calls -/

/-- A program on the index; it may fail with a message, or panic. -/
abbrev IndexM (α : Type) : Type :=
  ExceptT (Failure String) (Program IndexOp IndexAns) α

namespace IndexM

/-- The operator `?` on the result of a call. -/
def ofResult {α : Type} : Except String α → IndexM α
  | .ok a => pure a
  | .error e => throw (.err e)

/-- The operator `?`, with a message that says which call failed. -/
def named {α : Type} (call : String) (result : Except String α) : IndexM α :=
  ofResult (result.mapError (call ++ ·))

/-- A call that panics when its computation does. -/
def ofOutcome {α : Type} (outcome : Outcome String α) : IndexM α :=
  ExceptT.mk (pure outcome)

end IndexM

namespace IndexWriter

/-- Adds a document with the given fields to the index. -/
def addDocument (path content language symbols metadata : String) : IndexM (Except String Unit) :=
  ExceptT.lift (Program.call
    (IndexOp.addDocument { path, content, language, symbols, metadata }))

/-- Deletes all documents with the given file path. -/
def deleteDocument (path : String) : IndexM (Except String Unit) :=
  ExceptT.lift (Program.call (IndexOp.deleteDocument path))

/-- Commits all pending changes. -/
def commit : IndexM (Except String Unit) :=
  ExceptT.lift (Program.call IndexOp.commit)

/-- Deletes all documents from the index and commits. -/
def clear : IndexM (Except String Unit) :=
  ExceptT.lift (Program.call IndexOp.clear)

end IndexWriter

/-- Forces a reload of the index. -/
def IndexReader.reload : IndexM (Except String Unit) :=
  ExceptT.lift (Program.call IndexOp.reload)

/-- Clear the entire index. -/
def IndexManager.clearIndex : IndexM (Except String Unit) := do
  match ← IndexWriter.clear with
  | .ok () => IndexReader.reload
  | .error e => pure (.error e)

end OrchestraRag
