import OrchestraRag.Index.Tools

/-!
# Concurrent upserts

Calls of `index_file` and `index_directory` replace documents in steps: delete the path, add the
document, commit.  The steps of several calls interleave, and a commit publishes what all of
them have queued.

A call is *adding* a path between the deletion and the addition.  When no path is deleted while
another call is adding it, and nothing is committed while another call is adding a path that is
published (`Unhindered`), every published snapshot has at most one document for each path, and
paths do not vanish (`snapshots_of_unhindered`).  Otherwise they may.
-/

namespace OrchestraRag

/-- A call in progress. -/
abbrev IndexThread : Type :=
  Program IndexOp IndexAns (Outcome String Json)

/-- A state of the index with calls in progress. -/
abbrev IndexPool : Type :=
  Pool IndexOp IndexAns (Outcome String Json) IndexState

namespace IndexOp

/-- No step fails. -/
abbrev Reliable : Semantics IndexOp IndexAns IndexState :=
  StepWhere (fun _ => True)

/-- The documents of the writer after a step that succeeds. -/
def after : IndexOp → Staged String IndexDocument → Staged String IndexDocument
  | .deleteDocument path, store => store.queue (.delete path)
  | .addDocument doc, store => store.queue (.add doc)
  | .commit, store => store.publish IndexDocument.path
  | .clear, store => (store.queue .deleteAll).publish IndexDocument.path
  | .reload, store => store
  | .collectFiles _ _ _, store => store
  | .elapsedMs, store => store

theorem store_of_effect {op : IndexOp} {s s' : IndexState} {x : IndexAns op}
    (heffect : op.Effect s x s') (hok : op.Succeeds x) :
  s'.store = op.after s.store
  := by
  cases op with
  | collectFiles root exclude extensions =>
      rw [show s' = s from heffect]
      rfl
  | elapsedMs =>
      rw [show s' = s from heffect]
      rfl
  | _ =>
      obtain rfl : x = Except.ok () := hok
      rw [show s' = _ from heffect]
      rfl

theorem store_of_step {op : IndexOp} {s s' : IndexState} {x : IndexAns op}
    (hstep : Reliable op s x s') :
  s'.store = op.after s.store ∧ op.Succeeds x
  := by
  obtain ⟨⟨t, heffect, hs'⟩, hsucceeds⟩ := hstep
  have hok := hsucceeds trivial
  rw [← store_of_effect heffect hok]
  rcases hs' with rfl | rfl
  · exact ⟨rfl, hok⟩
  · exact ⟨rfl, hok⟩

end IndexOp

/-! ### Upserts -/

/-- The path that a call deletes next to a step, when a document is only added right after its
path was deleted. -/
def IndexOp.Upserts : IndexOp → Option String → Option String → Prop
  | .deleteDocument path, before, after => before = none ∧ after = some path
  | .addDocument doc, before, after => before = some doc.path ∧ after = none
  | .clear, _, _ => False
  | _, before, after => before = none ∧ after = none

/-- When its steps succeed, the call adds a document only right after it deleted the document's
path, and it never clears; `pending` is the path it deleted last. -/
inductive Upserting : Option String → IndexThread → Prop
  | ret {outcome : Outcome String Json} : Upserting none (.ret outcome)
  | step {op : IndexOp} {k : IndexAns op → IndexThread} {before after : Option String} :
      op.Upserts before after → (∀ x, op.Succeeds x → Upserting after (k x)) →
        Upserting before (.step op k)

/-- The path that a call is adding. -/
def addingPath (t : IndexThread) : Option String :=
  match t.next with
  | some (.addDocument doc) => some doc.path
  | _ => none

theorem Upserting.step_inv {op : IndexOp} {k : IndexAns op → IndexThread}
    {pending : Option String} (h : Upserting pending (.step op k)) :
  ∃ after, op.Upserts pending after ∧ ∀ x, op.Succeeds x → Upserting after (k x)
  := by
  cases h with
  | step hop hk => exact ⟨_, hop, hk⟩

theorem Upserting.adding_eq {pending : Option String} {t : IndexThread}
    (h : Upserting pending t) :
  addingPath t = pending
  := by
  rcases h with _ | @⟨op, k, _, after, hop, hk⟩
  · rfl
  · cases op with
    | addDocument doc => apply hop.1.symm
    | clear => cases hop
    | _ => apply hop.1.symm

theorem upserting_indexFile (context : IndexContext) (args : Json) :
  Upserting none (handleIndexFile context args)
  := by
  rw [handleIndexFile]
  rcases indexFileDocument context args with e | doc
  · apply Upserting.ret
  · apply @Upserting.step (.deleteDocument doc.path) _ _ _ ⟨rfl, rfl⟩
    rintro _ rfl
    apply @Upserting.step (.addDocument _) _ _ _ ⟨rfl, rfl⟩
    rintro _ rfl
    apply @Upserting.step .commit _ _ _ ⟨rfl, rfl⟩
    rintro _ rfl
    apply @Upserting.step .reload _ _ _ ⟨rfl, rfl⟩
    rintro _ rfl
    apply Upserting.ret

/-- Indexing a collected file is one upsert, after which the call goes on. -/
theorem upserting_indexCollected (counts : IndexCounts) (file : CollectedFile)
    {f : IndexCounts → IndexM Json} (hf : ∀ counts, Upserting none (f counts)) :
  Upserting none (indexCollected counts file >>= f : IndexM Json)
  := by
  apply @Upserting.step (.deleteDocument file.path) _ _ _ ⟨rfl, rfl⟩
  rintro _ rfl
  apply @Upserting.step
    (.addDocument ⟨file.path, file.content, file.language, file.symbols, "{}"⟩) _ _ _ ⟨rfl, rfl⟩
  rintro _ rfl
  by_cases hbatch : (counts.added file.language).indexed % 100 = 0
  · simp only [hbatch, if_true]
    apply @Upserting.step .commit _ _ _ ⟨rfl, rfl⟩
    rintro _ rfl
    apply hf
  · simp only [hbatch, if_false]
    apply hf

theorem upserting_indexFiles (files : List CollectedFile) (counts : IndexCounts)
    {f : IndexCounts → IndexM Json} (hf : ∀ counts, Upserting none (f counts)) :
  Upserting none (indexFiles counts files >>= f : IndexM Json)
  := by
  induction files generalizing counts with
  | nil => apply hf
  | cons file files ih =>
      rw [indexFiles, bind_assoc]
      apply upserting_indexCollected
      apply ih

theorem upserting_indexDirectory {args : Json} (hclear : clearFirst args = false) :
  Upserting none (handleIndexDirectory args)
  := by
  rw [handleIndexDirectory]
  rcases walkArguments args with e | ⟨path, exclude, supported⟩
  · apply Upserting.ret
  · have htree : Upserting none (indexTree path exclude supported) := by
      apply @Upserting.step (.collectFiles path exclude supported) _ _ _ ⟨rfl, rfl⟩
      rintro _ ⟨files, rfl⟩
      apply upserting_indexFiles
      intro counts
      apply @Upserting.step .commit _ _ _ ⟨rfl, rfl⟩
      rintro _ rfl
      apply @Upserting.step .reload _ _ _ ⟨rfl, rfl⟩
      rintro _ rfl
      apply @Upserting.step .elapsedMs _ _ _ ⟨rfl, rfl⟩
      intro _ _
      apply Upserting.ret
    simp only [hclear]
    apply htree

/-! ### Runs -/

/-- A step that does not hinder a call that is adding a path. -/
def IndexOp.Spares (store : Staged String IndexDocument) (path : String) : IndexOp → Prop
  | .deleteDocument path' => path' ≠ path
  | .commit => ¬ Staged.Has IndexDocument.path path store.published
  | _ => True

/-- The next step of the `i`-th call deletes no path that another call is adding, and commits
only when no other call is adding a path that is published. -/
def Unhindered (i : ℕ) (c : IndexPool) : Prop :=
  ∀ op k, c.threads[i]? = some (.step op k) →
    ∀ t, Pool.Other c.threads i t → ∀ path, addingPath t = some path → op.Spares c.state.store path

/-- The calls replace documents one at a time for each path; a path that is not being added has
one document at most, and one that is published is there or is being added. -/
structure Consistent (c : IndexPool) : Prop where
  upserting : ∀ t ∈ c.threads, Upserting (addingPath t) t
  exclusive : ∀ i t path, c.threads[i]? = some t → addingPath t = some path →
    ∀ u, Pool.Other c.threads i u → addingPath u ≠ some path
  absent : ∀ t ∈ c.threads, ∀ path, addingPath t = some path →
    ¬ Staged.Has IndexDocument.path path (c.state.store.current IndexDocument.path)
  unique : Staged.Unique IndexDocument.path (c.state.store.current IndexDocument.path)
  published : Staged.Unique IndexDocument.path c.state.store.published
  covered : ∀ path, Staged.Has IndexDocument.path path c.state.store.published →
    Staged.Has IndexDocument.path path (c.state.store.current IndexDocument.path)
      ∨ ∃ t ∈ c.threads, addingPath t = some path

/-- What the step of one call must leave, given the other calls. -/
structure Leaves (others : IndexThread → Prop) (t : IndexThread)
    (store : Staged String IndexDocument) : Prop where
  upserting : Upserting (addingPath t) t
  exclusive : ∀ path, addingPath t = some path → ∀ u, others u → addingPath u ≠ some path
  absent : ∀ path, addingPath t = some path →
    ¬ Staged.Has IndexDocument.path path (store.current IndexDocument.path)
  absentOthers : ∀ u, others u → ∀ path, addingPath u = some path →
    ¬ Staged.Has IndexDocument.path path (store.current IndexDocument.path)
  unique : Staged.Unique IndexDocument.path (store.current IndexDocument.path)
  published : Staged.Unique IndexDocument.path store.published
  covered : ∀ path, Staged.Has IndexDocument.path path store.published →
    Staged.Has IndexDocument.path path (store.current IndexDocument.path)
      ∨ addingPath t = some path ∨ ∃ u, others u ∧ addingPath u = some path

theorem Consistent.set {c : IndexPool} (h : Consistent c) {i : ℕ} {t t' : IndexThread}
    (hi : c.threads[i]? = some t) {s' : IndexState}
    (hleaves : Leaves (Pool.Other c.threads i) t' s'.store) :
  Consistent ⟨s', c.threads.set i t'⟩
  := by
  have hlt : i < c.threads.length := (List.getElem?_eq_some_iff.mp hi).1
  have hself : (c.threads.set i t')[i]? = some t' := by
    rw [List.getElem?_set_self hlt]
  have hmem : ∀ u ∈ c.threads.set i t', u = t' ∨ Pool.Other c.threads i u := by
    intro u hu
    apply (Pool.eq_or_other hself hu).imp id
    apply Pool.other_set_self.mp
  have hset : ∀ u, Pool.Other c.threads i u → u ∈ c.threads.set i t' := by
    intro u hu
    apply (Pool.other_set_self.mpr hu).mem
  constructor
  · intro u hu
    rcases hmem u hu with rfl | hother
    · apply hleaves.upserting
    · apply h.upserting u hother.mem
  · intro j u path hj hadding v hother
    by_cases hji : j = i
    · obtain rfl := hji
      obtain rfl := Option.some.inj (hself.symm.trans hj)
      apply hleaves.exclusive path hadding v (Pool.other_set_self.mp hother)
    · have hju : c.threads[j]? = some u := by
        rw [← hj]
        apply (List.getElem?_set_ne (Ne.symm hji)).symm
      obtain ⟨l, hlj, hl⟩ := hother
      by_cases hli : l = i
      · obtain rfl := hli
        obtain rfl := Option.some.inj (hself.symm.trans hl)
        intro hv
        apply hleaves.exclusive path hv u ⟨j, hji, hju⟩ hadding
      · rw [List.getElem?_set_ne (Ne.symm hli)] at hl
        apply h.exclusive j u path hju hadding v ⟨l, hlj, hl⟩
  · intro u hu path hadding
    rcases hmem u hu with rfl | hother
    · apply hleaves.absent path hadding
    · apply hleaves.absentOthers u hother path hadding
  · apply hleaves.unique
  · apply hleaves.published
  · intro path hpath
    apply (hleaves.covered path hpath).imp id
    rintro (hadding | ⟨u, hother, hadding⟩)
    · exact ⟨t', List.mem_of_getElem? hself, hadding⟩
    · exact ⟨u, hset u hother, hadding⟩

/-- A step that leaves the documents of the writer and does not begin or end an upsert. -/
theorem Consistent.leaves_same {c : IndexPool} (h : Consistent c) {i : ℕ} {t t' : IndexThread}
    (hi : c.threads[i]? = some t) (hidle : addingPath t = none)
    (ht' : Upserting none t') :
  Leaves (Pool.Other c.threads i) t' c.state.store
  := by
  have hidle' := ht'.adding_eq
  constructor
  · rw [hidle']
    apply ht'
  · intro path hadding
    rw [hidle'] at hadding
    cases hadding
  · intro path hadding
    rw [hidle'] at hadding
    cases hadding
  · intro u hother path hadding
    apply h.absent u hother.mem path hadding
  · apply h.unique
  · apply h.published
  · intro path hpath
    apply (h.covered path hpath).imp id
    rintro ⟨u, hu, hadding⟩
    rcases Pool.eq_or_other hi hu with rfl | hother
    · rw [hidle] at hadding
      cases hadding
    · exact Or.inr ⟨u, hother, hadding⟩

theorem Consistent.leaves_delete {c : IndexPool} (h : Consistent c) {i : ℕ} {t t' : IndexThread}
    {path : String} (hi : c.threads[i]? = some t) (hidle : addingPath t = none)
    (hspares : ∀ u, Pool.Other c.threads i u → addingPath u ≠ some path)
    (ht' : Upserting (some path) t') :
  Leaves (Pool.Other c.threads i) t' (c.state.store.queue (.delete path))
  := by
  have hadding' := ht'.adding_eq
  constructor
  · rw [hadding']
    apply ht'
  · intro path' hpath' u hother
    rw [hadding'] at hpath'
    cases hpath'
    apply hspares u hother
  · intro path' hpath'
    rw [hadding'] at hpath'
    cases hpath'
    rw [Staged.current_queue, Staged.has_delete]
    rintro ⟨-, hne⟩
    apply hne rfl
  · intro u hother path' hpath'
    rw [Staged.current_queue, Staged.has_delete]
    rintro ⟨hhas, -⟩
    apply h.absent u hother.mem path' hpath' hhas
  · rw [Staged.current_queue]
    apply Staged.unique_delete h.unique
  · apply h.published
  · intro path' hpath'
    rw [Staged.current_queue, Staged.has_delete]
    by_cases hne : path' = path
    · obtain rfl := hne
      exact Or.inr (Or.inl hadding')
    · rcases h.covered path' hpath' with hhas | ⟨u, hu, hadding⟩
      · exact Or.inl ⟨hhas, hne⟩
      · rcases Pool.eq_or_other hi hu with rfl | hother
        · rw [hidle] at hadding
          cases hadding
        · exact Or.inr (Or.inr ⟨u, hother, hadding⟩)

theorem Consistent.leaves_add {c : IndexPool} (h : Consistent c) {i : ℕ} {t t' : IndexThread}
    {doc : IndexDocument} (hi : c.threads[i]? = some t) (hadding : addingPath t = some doc.path)
    (ht' : Upserting none t') :
  Leaves (Pool.Other c.threads i) t' (c.state.store.queue (.add doc))
  := by
  have hidle' := ht'.adding_eq
  have hmem := List.mem_of_getElem? hi
  constructor
  · rw [hidle']
    apply ht'
  · intro path hpath
    rw [hidle'] at hpath
    cases hpath
  · intro path hpath
    rw [hidle'] at hpath
    cases hpath
  · intro u hother path hpath
    rw [Staged.current_queue, Staged.has_add]
    rintro (hhas | rfl)
    · apply h.absent u hother.mem path hpath hhas
    · apply h.exclusive i t _ hi hadding u hother hpath
  · rw [Staged.current_queue]
    apply Staged.unique_add h.unique
    apply h.absent t hmem doc.path hadding
  · apply h.published
  · intro path hpath
    rw [Staged.current_queue, Staged.has_add]
    rcases h.covered path hpath with hhas | ⟨u, hu, hu'⟩
    · exact Or.inl (Or.inl hhas)
    · rcases Pool.eq_or_other hi hu with rfl | hother
      · rw [hadding] at hu'
        exact Or.inl (Or.inr (Option.some.inj hu'))
      · exact Or.inr (Or.inr ⟨u, hother, hu'⟩)

theorem Consistent.leaves_commit {c : IndexPool} (h : Consistent c) {i : ℕ} {t t' : IndexThread}
    (hi : c.threads[i]? = some t) (hidle : addingPath t = none) (ht' : Upserting none t') :
  Leaves (Pool.Other c.threads i) t' (c.state.store.publish IndexDocument.path)
  := by
  have hsame := h.leaves_same hi hidle ht'
  constructor
  · apply hsame.upserting
  · apply hsame.exclusive
  · apply hsame.absent
  · apply hsame.absentOthers
  · apply h.unique
  · apply h.unique
  · intro path hpath
    apply Or.inl hpath

/-- Calls that are not hindered stay consistent. -/
theorem consistent_step (i : ℕ) (c c' : IndexPool) (h : Consistent c) (hfree : Unhindered i c)
    (hstep : Pool.Step IndexOp.Reliable i c c') :
  Consistent c'
  := by
  obtain ⟨op, k, x, hi, hop, hthreads⟩ := (Pool.step_iff _).mp hstep
  obtain ⟨hstore, hok⟩ := IndexOp.store_of_step hop
  obtain ⟨s', threads'⟩ := c'
  obtain rfl := hthreads
  apply h.set hi
  rw [hstore]
  have hspares := hfree op k hi
  obtain ⟨after, hupserts, hk⟩ := (h.upserting _ (List.mem_of_getElem? hi)).step_inv
  have ht' := hk x hok
  cases op with
  | deleteDocument path =>
      obtain ⟨hidle, rfl⟩ := hupserts
      apply h.leaves_delete hi hidle _ ht'
      intro u hother hu
      apply hspares u hother path hu rfl
  | addDocument doc =>
      obtain ⟨hadding, rfl⟩ := hupserts
      apply h.leaves_add hi hadding ht'
  | commit =>
      obtain ⟨hidle, rfl⟩ := hupserts
      apply h.leaves_commit hi hidle ht'
  | clear => cases hupserts
  | _ =>
      obtain ⟨hidle, rfl⟩ := hupserts
      apply h.leaves_same hi hidle ht'

/-- A step that is not hindered keeps the paths that are published. -/
theorem published_step {i : ℕ} {c c' : IndexPool} (h : Consistent c) (hfree : Unhindered i c)
    (hstep : Pool.Step IndexOp.Reliable i c c') {path : String}
    (hpath : Staged.Has IndexDocument.path path c.state.store.published) :
  Staged.Has IndexDocument.path path c'.state.store.published
  := by
  obtain ⟨op, k, x, hi, hop, hthreads⟩ := (Pool.step_iff _).mp hstep
  obtain ⟨hstore, hok⟩ := IndexOp.store_of_step hop
  rw [hstore]
  cases op with
  | commit =>
      rcases h.covered path hpath with hhas | ⟨u, hu, hadding⟩
      · apply hhas
      · rcases Pool.eq_or_other hi hu with rfl | hother
        · cases hadding
        · apply absurd hpath
          apply hfree .commit k hi u hother path hadding
  | clear =>
      obtain ⟨after, hupserts, -⟩ := (h.upserting _ (List.mem_of_getElem? hi)).step_inv
      cases hupserts
  | _ => apply hpath

/-! ### Calls -/

/-- A call of a tool that indexes. -/
inductive IndexCall where
  | indexFile (args : Json)
  | indexDirectory (args : Json)

namespace IndexCall

def program (context : IndexContext) : IndexCall → IndexThread
  | .indexFile args => handleIndexFile context args
  | .indexDirectory args => handleIndexDirectory args

/-- The call clears the index first. -/
def Clears : IndexCall → Prop
  | .indexFile _ => False
  | .indexDirectory args => clearFirst args = true

theorem upserting_program (context : IndexContext) {call : IndexCall} (h : ¬ call.Clears) :
  Upserting none (call.program context)
  := by
  cases call with
  | indexFile args => apply upserting_indexFile
  | indexDirectory args => apply upserting_indexDirectory (Bool.eq_false_iff.mpr h)

end IndexCall

theorem consistent_start (context : IndexContext) {calls : List IndexCall}
    (hcalls : ∀ call ∈ calls, ¬ call.Clears) {s : IndexState}
    (hunique : Staged.Unique IndexDocument.path s.store.published)
    (hqueued : s.store.queued = []) :
  Consistent ⟨s, calls.map (IndexCall.program context)⟩
  := by
  have hcurrent : s.store.current IndexDocument.path = s.store.published := by
    rw [Staged.current, hqueued]
    rfl
  have hstart : ∀ t ∈ calls.map (IndexCall.program context), Upserting none t := by
    intro t ht
    obtain ⟨call, hcall, rfl⟩ := List.mem_map.mp ht
    apply IndexCall.upserting_program context (hcalls call hcall)
  have hidle : ∀ t ∈ calls.map (IndexCall.program context), addingPath t = none := by
    intro t ht
    apply (hstart t ht).adding_eq
  constructor
  · intro t ht
    rw [hidle t ht]
    apply hstart t ht
  · intro i t path hi hadding
    rw [hidle t (List.mem_of_getElem? hi)] at hadding
    cases hadding
  · intro t ht path hadding
    rw [hidle t ht] at hadding
    cases hadding
  · rw [hcurrent]
    apply hunique
  · apply hunique
  · intro path hpath
    rw [hcurrent]
    apply Or.inl hpath

/-- In a run in which no call is hindered, every snapshot has at most one document for each
path, and a path that was published once is in every later snapshot. -/
theorem snapshots_of_unhindered (context : IndexContext) {calls : List IndexCall}
    (hcalls : ∀ call ∈ calls, ¬ call.Clears) {s : IndexState}
    (hunique : Staged.Unique IndexDocument.path s.store.published)
    (hqueued : s.store.queued = []) {c c' : IndexPool}
    (hrun : Pool.Run IndexOp.Reliable Unhindered ⟨s, calls.map (IndexCall.program context)⟩ c)
    (hrun' : Pool.Run IndexOp.Reliable Unhindered c c') :
  Staged.Unique IndexDocument.path c'.state.store.published
    ∧ ∀ path, Staged.Has IndexDocument.path path c.state.store.published →
      Staged.Has IndexDocument.path path c'.state.store.published
  := by
  have hstart := consistent_start context hcalls hunique hqueued
  have hc := hrun.invariant consistent_step hstart
  have hlater := hrun'.invariant
    (fun i d d' (hd : Consistent d ∧ ∀ path,
        Staged.Has IndexDocument.path path c.state.store.published →
          Staged.Has IndexDocument.path path d.state.store.published) hfree hstep => by
      constructor
      · apply consistent_step i d d' hd.1 hfree hstep
      · intro path hpath
        apply published_step hd.1 hfree hstep (hd.2 path hpath))
    ⟨hc, fun _ h => h⟩
  exact ⟨hlater.1.published, hlater.2⟩

/-! ### Two calls for one path -/

section SameFile

/-- The rest of a call of `index_file` that is about to delete the path of its document. -/
def replacing (doc : IndexDocument) : IndexThread :=
  (do
    IndexM.ofResult (← IndexWriter.deleteDocument doc.path)
    IndexM.ofResult (← IndexWriter.addDocument doc.path doc.content doc.language doc.symbols
      doc.metadata)
    IndexM.ofResult (← IndexWriter.commit)
    IndexM.ofResult (← IndexReader.reload)
    pure (.object (SortedMap.collect [("success", .bool true), ("path", .string doc.path)]))
    : IndexM Json)

/-- No language is loaded, and metadata is written as an empty object. -/
def plainContext : IndexContext :=
  ⟨⟨fun _ => .ok (), fun _ _ => none, fun _ => ""⟩, fun _ => "{}"⟩

def noteFileArgs : Json :=
  .object [("content", .string "a note"), ("path", .string "note.txt")]

def noteDocument : IndexDocument :=
  ⟨"note.txt", "a note", "unknown", "", "{}"⟩

theorem program_noteFile :
  (IndexCall.indexFile noteFileArgs).program plainContext = replacing noteDocument
  := by
  have hdoc : indexFileDocument plainContext noteFileArgs = .ok noteDocument := rfl
  rw [IndexCall.program, handleIndexFile, hdoc]
  rfl

def todoFileArgs : Json :=
  .object [("content", .string "to do"), ("path", .string "todo.txt")]

def todoDocument : IndexDocument :=
  ⟨"todo.txt", "to do", "unknown", "", "{}"⟩

theorem program_todoFile :
  (IndexCall.indexFile todoFileArgs).program plainContext = replacing todoDocument
  := by
  have hdoc : indexFileDocument plainContext todoFileArgs = .ok todoDocument := rfl
  rw [IndexCall.program, handleIndexFile, hdoc]
  rfl

theorem reliable_delete (s : IndexState) (path : String) :
  IndexOp.Reliable (.deleteDocument path) s (Except.ok () : Except String Unit)
    (s.queue (.delete path))
  := ⟨⟨_, rfl, Or.inl rfl⟩, fun _ => rfl⟩

theorem reliable_add (s : IndexState) (doc : IndexDocument) :
  IndexOp.Reliable (.addDocument doc) s (Except.ok () : Except String Unit) (s.queue (.add doc))
  := ⟨⟨_, rfl, Or.inl rfl⟩, fun _ => rfl⟩

theorem reliable_commit (s : IndexState) :
  IndexOp.Reliable .commit s (Except.ok () : Except String Unit) s.publish
  := ⟨⟨_, rfl, Or.inl rfl⟩, fun _ => rfl⟩

/-- Of two calls the first takes a step. -/
theorem unhindered_first {s : IndexState} {op : IndexOp} {k : IndexAns op → IndexThread}
    {t : IndexThread} (h : ∀ path, addingPath t = some path → op.Spares s.store path) :
  Unhindered 0 ⟨s, [.step op k, t]⟩
  := by
  rintro op' k' ⟨⟩ u ⟨j, hj, hu⟩
  obtain rfl : j = 1 := by
    have hlt : j < 2 := (List.getElem?_eq_some_iff.mp hu).1
    omega
  obtain rfl := Option.some.inj hu
  apply h

/-- Of two calls the second takes a step. -/
theorem unhindered_second {s : IndexState} {op : IndexOp} {k : IndexAns op → IndexThread}
    {t : IndexThread} (h : ∀ path, addingPath t = some path → op.Spares s.store path) :
  Unhindered 1 ⟨s, [t, .step op k]⟩
  := by
  rintro op' k' ⟨⟩ u ⟨j, hj, hu⟩
  obtain rfl : j = 0 := by
    have hlt : j < 2 := (List.getElem?_eq_some_iff.mp hu).1
    omega
  obtain rfl := Option.some.inj hu
  apply h

/-- An index with an older content of the note. -/
def oldNoteIndex : IndexState :=
  ⟨⟨[{ noteDocument with content := "an old note" }], []⟩, []⟩

/-- The note is indexed again while another file is: it is published when the other one has only
been deleted, and it stays when the other one is published. -/
theorem snapshots_noteFile :
  ∃ c c' : IndexPool, Pool.Run IndexOp.Reliable Unhindered
      ⟨oldNoteIndex, [IndexCall.indexFile noteFileArgs, IndexCall.indexFile todoFileArgs].map
        (IndexCall.program plainContext)⟩ c
    ∧ Pool.Run IndexOp.Reliable Unhindered c c'
    ∧ c.state.store.published = [noteDocument]
    ∧ c'.state.store.published = [noteDocument, todoDocument]
    ∧ Staged.Unique IndexDocument.path c'.state.store.published
    ∧ ∀ path, Staged.Has IndexDocument.path path c.state.store.published →
      Staged.Has IndexDocument.path path c'.state.store.published
  := by
  have hstart : Pool.Run IndexOp.Reliable Unhindered
      ⟨oldNoteIndex, [IndexCall.indexFile noteFileArgs, IndexCall.indexFile todoFileArgs].map
        (IndexCall.program plainContext)⟩
      ⟨oldNoteIndex, [replacing noteDocument, replacing todoDocument]⟩ := by
    rw [List.map_cons, List.map_singleton, program_noteFile, program_todoFile]
    apply Pool.Run.refl
  have hpaths : todoDocument.path ≠ noteDocument.path := by decide
  have hnew : ¬ Staged.Has IndexDocument.path todoDocument.path oldNoteIndex.store.published := by
    rintro ⟨doc, hdoc, hpath⟩
    rw [List.mem_singleton.mp hdoc] at hpath
    apply hpaths hpath.symm
  -- The first call deletes, and the second one while the first is adding.
  have hrun := hstart.next 0 _ rfl (unhindered_first (by rintro path ⟨⟩))
    (reliable_delete _ "note.txt") rfl
  replace hrun := hrun.next 1 _ rfl (unhindered_second (by rintro path ⟨⟩; exact hpaths))
    (reliable_delete _ "todo.txt") rfl
  replace hrun := hrun.next 0 _ rfl (unhindered_first (by rintro path ⟨⟩; trivial))
    (reliable_add _ noteDocument) rfl
  -- The first call commits while the second one is adding a path that is not published.
  replace hrun := hrun.next 0 _ rfl (unhindered_first (by rintro path ⟨⟩; exact hnew))
    (reliable_commit _) rfl
  have hlater := hrun.onwards.next 1 _ rfl (unhindered_second (by rintro path ⟨⟩))
    (reliable_add _ todoDocument) rfl
  replace hlater := hlater.next 1 _ rfl (unhindered_second (by rintro path ⟨⟩))
    (reliable_commit _) rfl
  have hunique : Staged.Unique IndexDocument.path oldNoteIndex.store.published := by
    decide
  have hcalls : ∀ call ∈ [IndexCall.indexFile noteFileArgs, IndexCall.indexFile todoFileArgs],
      ¬ call.Clears := by
    intro call hcall
    simp only [List.mem_cons, List.not_mem_nil, or_false] at hcall
    obtain rfl | rfl := hcall
    · apply id
    · apply id
  exact ⟨_, _, hrun, hlater, rfl, rfl,
    snapshots_of_unhindered plainContext hcalls hunique rfl hrun hlater⟩

/-- Two calls index the same file at once: both delete its path before either adds the
document, and the snapshot that the first commit publishes has it twice. -/
theorem not_unique_sameFile :
  ¬ ∀ (context : IndexContext) (calls : List IndexCall) (c c' : IndexPool),
      (∀ call ∈ calls, ¬ call.Clears) →
      Pool.Run IndexOp.Reliable Pool.anyStep
        ⟨IndexState.empty, calls.map (IndexCall.program context)⟩ c →
      Pool.Run IndexOp.Reliable Pool.anyStep c c' →
        Staged.Unique IndexDocument.path c'.state.store.published
          ∧ ∀ path, Staged.Has IndexDocument.path path c.state.store.published →
            Staged.Has IndexDocument.path path c'.state.store.published
  := by
  intro h
  have hstart : Pool.Run IndexOp.Reliable Pool.anyStep
      ⟨IndexState.empty, [IndexCall.indexFile noteFileArgs, IndexCall.indexFile noteFileArgs].map
        (IndexCall.program plainContext)⟩
      ⟨IndexState.empty, [replacing noteDocument, replacing noteDocument]⟩ := by
    rw [List.map_cons, List.map_singleton, program_noteFile]
    apply Pool.Run.refl
  have hrun := hstart.next 0 _ rfl trivial (reliable_delete _ "note.txt") rfl
  replace hrun := hrun.next 1 _ rfl trivial (reliable_delete _ "note.txt") rfl
  replace hrun := hrun.next 0 _ rfl trivial (reliable_add _ noteDocument) rfl
  replace hrun := hrun.next 1 _ rfl trivial (reliable_add _ noteDocument) rfl
  replace hrun := hrun.next 0 _ rfl trivial (reliable_commit _) rfl
  have hcalls : ∀ call ∈ [IndexCall.indexFile noteFileArgs, IndexCall.indexFile noteFileArgs],
      ¬ call.Clears := by
    intro call hcall
    simp only [List.mem_cons, List.not_mem_nil, or_false, or_self] at hcall
    rw [hcall]
    apply id
  have hunique := (h plainContext _ _ _ hcalls hrun Pool.Run.refl).1
  have htwice : ¬ Staged.Unique IndexDocument.path [noteDocument, noteDocument] := by
    decide
  apply htwice hunique

end SameFile

end OrchestraRag
