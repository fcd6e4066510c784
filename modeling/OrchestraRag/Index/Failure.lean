import OrchestraRag.Index.Concurrent

/-!
# Failing calls

What a call of `index_file` or `index_directory` leaves when it fails, when any step may fail.

A call that does not clear the index loses no document that was there before, unless its own
addition of a document at that path fails: deletions are queued before additions.  What is there
stays there while other calls go on, as long as they do not target its path
(`kept_of_run`).  A call that clears the index first commits the deletion of all
documents before it looks at the directory; when it fails after that, the index has only what
the call added (`left_of_clears`).
-/

namespace OrchestraRag

/-! ### Steps that may fail -/

namespace IndexOp

/-- The change that a step queues when it answers `x`. -/
def Queues : (op : IndexOp) → IndexAns op → Change String IndexDocument → Prop
  | .deleteDocument path, x, change => (x : Except String Unit) = .ok () ∧ change = .delete path
  | .addDocument doc, x, change => (x : Except String Unit) = .ok () ∧ change = .add doc
  | .clear, _, change => change = .deleteAll
  | _, _, _ => False

/-- The step commits. -/
def Commits : IndexOp → Prop
  | .commit => True
  | .clear => True
  | _ => False

/-- What a step moves between the writer and the reader. -/
def Moves (op : IndexOp) (s s' : IndexState) : Prop :=
  s' = s ∨ s' = s.reload ∨ op.Commits ∧ (s' = s.rollback ∨ s' = s.publish)

theorem moves_of_commitFails {op : IndexOp} {s s' : IndexState} (hop : op.Commits)
    (h : CommitFails s s') :
  op.Moves s s'
  := by
  rcases h with h | h | h
  · exact Or.inl h
  · exact Or.inr (Or.inr ⟨hop, Or.inl h⟩)
  · exact Or.inr (Or.inr ⟨hop, Or.inr h⟩)

/-- A step queues one change or none, and then moves what is there. -/
theorem effect_cases {op : IndexOp} {s s' : IndexState} {x : IndexAns op}
    (h : op.Effect s x s') :
  op.Moves s s' ∨ ∃ change, op.Queues x change ∧ op.Moves (s.queue change) s'
  := by
  cases op with
  | deleteDocument path =>
      rcases (x : Except String Unit) with e | ⟨⟩
      · exact Or.inl (Or.inl h)
      · exact Or.inr ⟨_, ⟨rfl, rfl⟩, Or.inl h⟩
  | addDocument doc =>
      rcases (x : Except String Unit) with e | ⟨⟩
      · exact Or.inl (Or.inl h)
      · exact Or.inr ⟨_, ⟨rfl, rfl⟩, Or.inl h⟩
  | commit =>
      rcases (x : Except String Unit) with e | ⟨⟩
      · exact Or.inl (moves_of_commitFails trivial h)
      · exact Or.inl (Or.inr (Or.inr ⟨trivial, Or.inr h⟩))
  | clear =>
      rcases (x : Except String Unit) with e | ⟨⟩
      · rcases h with h | h
        · exact Or.inl (Or.inl h)
        · exact Or.inr ⟨_, rfl, moves_of_commitFails trivial h⟩
      · exact Or.inr ⟨_, rfl, Or.inr (Or.inr ⟨trivial, Or.inr h⟩)⟩
  | reload =>
      rcases (x : Except String Unit) with e | ⟨⟩
      · exact Or.inl (Or.inl h)
      · exact Or.inl (Or.inr (Or.inl h))
  | collectFiles root exclude extensions => exact Or.inl (Or.inl h)
  | elapsedMs => exact Or.inl (Or.inl h)

end IndexOp

namespace IndexState

/-- The documents of the reader, of the last snapshot and of the writer are all such. -/
structure Everywhere (P : List IndexDocument → Prop) (s : IndexState) : Prop where
  loaded : P s.loaded
  published : P s.store.published
  current : P (s.store.current IndexDocument.path)

/-- The documents of the reader and of the last snapshot are such. -/
structure Visible (P : List IndexDocument → Prop) (s : IndexState) : Prop where
  loaded : P s.loaded
  published : P s.store.published

variable {P : List IndexDocument → Prop} {s s' : IndexState} {op : IndexOp} {x : IndexAns op}

theorem Everywhere.visible (h : s.Everywhere P) :
  s.Visible P
  := ⟨h.loaded, h.published⟩

theorem Everywhere.reload (h : s.Everywhere P) :
  s.reload.Everywhere P
  := ⟨h.published, h.published, h.current⟩

theorem Visible.reload (h : s.Visible P) :
  s.reload.Visible P
  := ⟨h.published, h.published⟩

theorem Everywhere.queue (h : s.Everywhere P) {change : Change String IndexDocument}
    (hchange : ∀ docs, P docs → P (change.apply IndexDocument.path docs)) :
  (s.queue change).Everywhere P
  := by
  constructor
  · apply h.loaded
  · apply h.published
  · rw [IndexState.queue, Staged.current_queue]
    apply hchange _ h.current

theorem Everywhere.moves (h : s.Everywhere P) (hmoves : op.Moves s s') :
  s'.Everywhere P
  := by
  rcases hmoves with rfl | rfl | ⟨-, rfl | rfl⟩
  · apply h
  · apply h.reload
  · exact ⟨h.loaded, h.published, h.published⟩
  · exact ⟨h.loaded, h.current, h.current⟩

theorem Visible.moves (h : s.Visible P) (hop : ¬ op.Commits) (hmoves : op.Moves s s') :
  s'.Visible P
  := by
  rcases hmoves with rfl | rfl | ⟨hcommits, -⟩
  · apply h
  · apply h.reload
  · apply absurd hcommits hop

/-- A step keeps what its change keeps. -/
theorem Everywhere.step (h : s.Everywhere P)
    (hchange : ∀ change, op.Queues x change →
      ∀ docs, P docs → P (change.apply IndexDocument.path docs)) (hstep : op.Step s x s') :
  s'.Everywhere P
  := by
  obtain ⟨t, heffect, hs'⟩ := hstep
  have ht : t.Everywhere P := by
    rcases IndexOp.effect_cases heffect with hmoves | ⟨change, hqueues, hmoves⟩
    · apply h.moves hmoves
    · apply (h.queue (hchange change hqueues)).moves hmoves
  rcases hs' with rfl | rfl
  · apply ht
  · apply ht.reload

/-- A step that does not commit keeps what is visible. -/
theorem Visible.step (h : s.Visible P) (hop : ¬ op.Commits) (hstep : op.Step s x s') :
  s'.Visible P
  := by
  obtain ⟨t, heffect, hs'⟩ := hstep
  have ht : t.Visible P := by
    rcases IndexOp.effect_cases heffect with hmoves | ⟨change, -, hmoves⟩
    · apply h.moves hop hmoves
    · apply Visible.moves (s := s.queue change) ⟨h.loaded, h.published⟩ hop hmoves
  rcases hs' with rfl | rfl
  · apply ht
  · apply ht.reload

end IndexState

/-! ### Calls that replace documents -/

namespace IndexOp

/-- A walk collects only files of `found`. -/
def Finds (found : CollectedFile → Prop) : (op : IndexOp) → IndexAns op → Prop
  | .collectFiles _ _ _, x =>
      ∀ files, (x : Except String (List CollectedFile)) = .ok files → ∀ file ∈ files, found file
  | _, _ => True

/-- Steps of which those in `P` succeed, and whose walks collect only files of `found`. -/
def StepFinding (found : CollectedFile → Prop) (P : IndexOp → Prop) :
    Semantics IndexOp IndexAns IndexState :=
  fun op s x s' => StepWhere P op s x s' ∧ op.Finds found x

/-- The step adds a document at `path`. -/
def AddsAt (path : String) : IndexOp → Prop
  | .addDocument doc => doc.path = path
  | _ => False

/-- A call that has deleted the path `before` may take the step, when it adds documents of `new`
only, right after it tried to delete their path, and does not clear. -/
def Replaces (new : IndexDocument → Prop) : IndexOp → Option String → Prop
  | .addDocument doc, before => (before = none ∨ before = some doc.path) ∧ new doc
  | .clear, _ => False
  | _, before => before = none

/-- The path that a step has deleted when it answers `x`. -/
def deleted : (op : IndexOp) → IndexAns op → Option String
  | .deleteDocument path, x =>
      match (x : Except String Unit) with
      | .ok () => some path
      | .error _ => none
  | _, _ => none

theorem deleted_of_queues {op : IndexOp} {x : IndexAns op} {path : String}
    (h : op.Queues x (.delete path)) :
  op.deleted x = some path
  := by
  cases op with
  | deleteDocument path' =>
      obtain ⟨rfl, ⟨⟩⟩ := h
      rfl
  | addDocument doc => cases h.2
  | clear => cases h
  | _ => cases h

theorem eq_delete_of_deleted {op : IndexOp} {x : IndexAns op} {path : String}
    (h : op.deleted x = some path) :
  op = .deleteDocument path
  := by
  cases op with
  | deleteDocument path' =>
      rcases (x : Except String Unit) with e | ⟨⟩
      · cases h
      · rw [Option.some.inj h]
  | _ => cases h

theorem eq_clear_of_queues {op : IndexOp} {x : IndexAns op} (h : op.Queues x .deleteAll) :
  op = .clear
  := by
  cases op with
  | deleteDocument path => cases h.2
  | addDocument doc => cases h.2
  | clear => rfl
  | _ => cases h

end IndexOp

section Replacing

variable (found : CollectedFile → Prop) (P : IndexOp → Prop) (new : IndexDocument → Prop)

/-- Whatever its steps answer, the call adds documents of `new` only, right after it tried to
delete their path, and it never clears; `pending` is the path it deleted last. -/
inductive Replacing : Option String → IndexThread → Prop
  | ret {outcome : Outcome String Json} : Replacing none (.ret outcome)
  | step {op : IndexOp} {k : IndexAns op → IndexThread} {pending : Option String} :
      op.Replaces new pending →
        (∀ x, (P op → op.Succeeds x) → op.Finds found x → Replacing (op.deleted x) (k x)) →
          Replacing pending (.step op k)

variable {found P new}

theorem Replacing.step_inv {op : IndexOp} {k : IndexAns op → IndexThread}
    {pending : Option String} (h : Replacing found P new pending (.step op k)) :
  op.Replaces new pending
    ∧ ∀ x, (P op → op.Succeeds x) → op.Finds found x →
      Replacing found P new (op.deleted x) (k x)
  := by
  cases h with
  | step hop hk => exact ⟨hop, hk⟩

theorem Replacing.adding_eq {path : String} {t : IndexThread}
    (h : Replacing found P new (some path) t) :
  addingPath t = some path
  := by
  rcases h with _ | @⟨op, k, _, hop, hk⟩
  cases op with
  | addDocument doc =>
      rcases hop.1 with h | h
      · cases h
      · apply h.symm
  | clear => cases hop
  | _ => cases hop

theorem replacing_indexFile (context : IndexContext) {args : Json}
    (hnew : ∀ doc, indexFileDocument context args = .ok doc → new doc) :
  Replacing found P new none (handleIndexFile context args)
  := by
  rw [handleIndexFile]
  rcases h : indexFileDocument context args with e | doc
  · apply Replacing.ret
  · apply @Replacing.step _ _ _ (.deleteDocument doc.path) _ _ rfl
    rintro (e | ⟨⟩) - -
    · apply Replacing.ret
    apply @Replacing.step _ _ _ (.addDocument doc) _ _ ⟨Or.inr rfl, hnew doc h⟩
    rintro (e | ⟨⟩) - -
    · apply Replacing.ret
    apply @Replacing.step _ _ _ .commit _ _ rfl
    rintro (e | ⟨⟩) - -
    · apply Replacing.ret
    apply @Replacing.step _ _ _ .reload _ _ rfl
    rintro (e | ⟨⟩) - -
    · apply Replacing.ret
    · apply Replacing.ret

/-- The document of a collected file. -/
def CollectedFile.document (file : CollectedFile) : IndexDocument :=
  ⟨file.path, file.content, file.language, file.symbols, "{}"⟩

theorem replacing_addCollected (counts : IndexCounts) {file : CollectedFile}
    (hnew : new file.document) {pending : Option String}
    (hpending : pending = none ∨ pending = some file.path) {f : IndexCounts → IndexM Json}
    (hf : ∀ counts, Replacing found P new none (f counts)) :
  Replacing found P new pending (addCollected counts file >>= f : IndexM Json)
  := by
  apply @Replacing.step _ _ _ (.addDocument file.document) _ _ ⟨hpending, hnew⟩
  rintro (e | ⟨⟩) - -
  · apply hf
  by_cases hbatch : (counts.added file.language).indexed % 100 = 0
  · simp only [hbatch, if_true]
    apply @Replacing.step _ _ _ .commit _ _ rfl
    rintro (e | ⟨⟩) - -
    · apply hf
    · apply hf
  · simp only [hbatch, if_false]
    apply hf

theorem replacing_indexFiles {files : List CollectedFile}
    (hnew : ∀ file ∈ files, new file.document) (counts : IndexCounts)
    {f : IndexCounts → IndexM Json} (hf : ∀ counts, Replacing found P new none (f counts)) :
  Replacing found P new none (indexFiles counts files >>= f : IndexM Json)
  := by
  induction files generalizing counts with
  | nil => apply hf
  | cons file files ih =>
      have hrest := ih (fun file hfile => hnew file (List.mem_cons_of_mem _ hfile))
      have hfile := hnew file List.mem_cons_self
      rw [indexFiles, bind_assoc, indexCollected, bind_assoc]
      apply @Replacing.step _ _ _ (.deleteDocument file.path) _ _ rfl
      rintro (e | ⟨⟩) - -
      · apply replacing_addCollected counts hfile (Or.inl rfl) hrest
      · apply replacing_addCollected counts hfile (Or.inr rfl) hrest

theorem replacing_indexTree (hnew : ∀ file, found file → new file.document) (path : String)
    (exclude supported : List String) :
  Replacing found P new none (indexTree path exclude supported)
  := by
  apply @Replacing.step _ _ _ (.collectFiles path exclude supported) _ _ rfl
  rintro (e | files) - hfound
  · apply Replacing.ret
  apply replacing_indexFiles (fun file hfile => hnew file (hfound files rfl file hfile))
  intro counts
  apply @Replacing.step _ _ _ .commit _ _ rfl
  rintro (e | ⟨⟩) - -
  · apply Replacing.ret
  apply @Replacing.step _ _ _ .reload _ _ rfl
  rintro (e | ⟨⟩) - -
  · apply Replacing.ret
  apply @Replacing.step _ _ _ .elapsedMs _ _ rfl
  intro _ _ _
  apply Replacing.ret

theorem replacing_indexDirectory (hnew : ∀ file, found file → new file.document) {args : Json}
    (hclear : clearFirst args = false) :
  Replacing found P new none (handleIndexDirectory args)
  := by
  rw [handleIndexDirectory]
  rcases walkArguments args with e | ⟨path, exclude, supported⟩
  · apply Replacing.ret
  · simp only [hclear]
    apply replacing_indexTree hnew path exclude supported

end Replacing

/-! ### Calls that do not clear -/

/-- There is `d` itself, or a document of `new` at its path. -/
def Kept (new : IndexDocument → Prop) (d : IndexDocument) (docs : List IndexDocument) : Prop :=
  ∃ d' ∈ docs, d'.path = d.path ∧ (d' = d ∨ new d')

section Kept

variable {found : CollectedFile → Prop} {new : IndexDocument → Prop} {d : IndexDocument}
  {docs : List IndexDocument}

theorem kept_self (h : d ∈ docs) :
  Kept new d docs
  := ⟨d, h, rfl, Or.inl rfl⟩

theorem kept_new {doc : IndexDocument} (hpath : doc.path = d.path) (hdoc : new doc) :
  Kept new d ((Change.add doc : Change String IndexDocument).apply IndexDocument.path docs)
  := ⟨doc, List.mem_append_right _ List.mem_cons_self, hpath, Or.inr hdoc⟩

/-- Only a deletion of its path, or of everything, removes a document. -/
theorem Kept.apply (h : Kept new d docs) {change : Change String IndexDocument}
    (hall : change ≠ .deleteAll) (hpath : change ≠ .delete d.path) :
  Kept new d (change.apply IndexDocument.path docs)
  := by
  obtain ⟨d', hmem, hd', hkept⟩ := h
  refine ⟨d', ?_, hd', hkept⟩
  cases change with
  | delete path =>
      refine List.mem_filter.mpr ⟨hmem, decide_eq_true ?_⟩
      intro heq
      apply hpath
      rw [← heq, hd']
  | add doc => apply List.mem_append_left _ hmem
  | deleteAll => apply absurd rfl hall

theorem kept_step {op : IndexOp} {x : IndexAns op} {s s' : IndexState}
    (h : s.Everywhere (Kept new d)) (hclear : op ≠ .clear)
    (hdeleted : op.deleted x ≠ some d.path) (hstep : op.Step s x s') :
  s'.Everywhere (Kept new d)
  := by
  apply h.step _ hstep
  intro change hqueues docs hdocs
  apply hdocs.apply
  · rintro rfl
    apply hclear (IndexOp.eq_clear_of_queues hqueues)
  · rintro rfl
    apply hdeleted (IndexOp.deleted_of_queues hqueues)

/-- A document of `new` that is added at the path takes the place of the one that was deleted. -/
theorem kept_added {doc : IndexDocument} {s s' : IndexState} (h : s.Visible (Kept new d))
    (hpath : doc.path = d.path) (hdoc : new doc)
    (hstep : IndexOp.Step (.addDocument doc) s (Except.ok () : Except String Unit) s') :
  s'.Everywhere (Kept new d)
  := by
  have hadded : (s.queue (.add doc)).Everywhere (Kept new d) := by
    constructor
    · apply h.loaded
    · apply h.published
    · rw [IndexState.queue, Staged.current_queue]
      apply kept_new hpath hdoc
  obtain ⟨t, rfl, rfl | rfl⟩ := hstep
  · apply hadded
  · apply hadded.reload

/-- Another call does not target the path: it does not delete it, and does not clear; and it does
not commit while the `i`-th call is adding a document there. -/
def Untargeted (i : ℕ) (path : String) (j : ℕ) (c : IndexPool) : Prop :=
  j ≠ i → ∀ op k, c.threads[j]? = some (.step op k) →
    op ≠ .deleteDocument path ∧ op ≠ .clear
      ∧ (op = .commit → ∀ t, c.threads[i]? = some t → addingPath t ≠ some path)

/-- The `i`-th call replaces documents; `d` is kept, but for the deletion that the call has
queued when it is adding a document at that path. -/
def Keeping (found : CollectedFile → Prop) (new : IndexDocument → Prop) (d : IndexDocument)
    (i : ℕ) (c : IndexPool) : Prop :=
  ∃ t pending, c.threads[i]? = some t
    ∧ Replacing found (IndexOp.AddsAt d.path) new pending t
    ∧ c.state.Visible (Kept new d)
    ∧ (pending ≠ some d.path → c.state.Everywhere (Kept new d))

/-- A step of the call itself. -/
theorem kept_own {op : IndexOp} {pending : Option String} {x : IndexAns op} {s s' : IndexState}
    (hreplaces : op.Replaces new pending)
    (hstep : IndexOp.StepFinding found (IndexOp.AddsAt d.path) op s x s')
    (hvisible : s.Visible (Kept new d))
    (hkept : pending ≠ some d.path → s.Everywhere (Kept new d)) :
  s'.Visible (Kept new d) ∧ (op.deleted x ≠ some d.path → s'.Everywhere (Kept new d))
  := by
  obtain ⟨⟨hstep, hadds⟩, -⟩ := hstep
  have hclear : op ≠ .clear := by
    rintro rfl
    cases hreplaces
  by_cases hpending : pending = some d.path
  · have hadded : s'.Everywhere (Kept new d) := by
      obtain rfl := hpending
      cases op with
      | addDocument doc =>
          have hpath : doc.path = d.path := by
            rcases hreplaces.1 with h | h
            · cases h
            · apply (Option.some.inj h).symm
          obtain rfl : x = Except.ok () := hadds hpath
          apply kept_added hvisible hpath hreplaces.2 hstep
      | clear => apply absurd rfl hclear
      | _ => cases hreplaces
    exact ⟨hadded.visible, fun _ => hadded⟩
  · have hall := hkept hpending
    by_cases hdeleted : op.deleted x = some d.path
    · refine ⟨hvisible.step ?_ hstep, fun hne => absurd hdeleted hne⟩
      rw [IndexOp.eq_delete_of_deleted hdeleted]
      apply id
    · have hall' := kept_step hall hclear hdeleted hstep
      exact ⟨hall'.visible, fun _ => hall'⟩

/-- Steps of the call, and steps that do not target the path, keep the document. -/
theorem keeping_step {i : ℕ} (j : ℕ) (c c' : IndexPool) (h : Keeping found new d i c)
    (hfree : Untargeted i d.path j c)
    (hstep : Pool.Step (IndexOp.StepFinding found (IndexOp.AddsAt d.path)) j c c') :
  Keeping found new d i c'
  := by
  obtain ⟨t, pending, hi, hreplacing, hvisible, hkept⟩ := h
  obtain ⟨op, k, x, hj, hop, hthreads⟩ := (Pool.step_iff _).mp hstep
  by_cases hji : j = i
  · obtain rfl := hji
    obtain rfl : Program.step op k = t := Option.some.inj (hj.symm.trans hi)
    obtain ⟨hreplaces, hk⟩ := hreplacing.step_inv
    refine ⟨k x, op.deleted x, ?_, hk x hop.1.2 hop.2, kept_own hreplaces hop hvisible hkept⟩
    rw [hthreads, List.getElem?_set_self (List.getElem?_eq_some_iff.mp hj).1]
  · obtain ⟨hdelete, hclear, hcommit⟩ := hfree hji op k hj
    have hi' : c'.threads[i]? = some t := by
      rw [hthreads, List.getElem?_set_ne hji]
      apply hi
    by_cases hpending : pending = some d.path
    · obtain rfl := hpending
      have hcommits : ¬ op.Commits := by
        intro hcommits
        cases op with
        | commit => apply hcommit rfl t hi hreplacing.adding_eq
        | clear => apply hclear rfl
        | _ => cases hcommits
      exact ⟨t, _, hi', hreplacing, hvisible.step hcommits hop.1.1, fun h => absurd rfl h⟩
    · have hall' : c'.state.Everywhere (Kept new d) := by
        apply kept_step (hkept hpending) hclear _ hop.1.1
        intro hdeleted
        apply hdelete (IndexOp.eq_delete_of_deleted hdeleted)
      exact ⟨t, pending, hi', hreplacing, hall'.visible, fun _ => hall'⟩

end Kept

/-- The documents that a call may add, when its walk collects files of `found`. -/
def IndexCall.Adds (context : IndexContext) (found : CollectedFile → Prop) :
    IndexCall → IndexDocument → Prop
  | .indexFile args, doc => indexFileDocument context args = .ok doc
  | .indexDirectory _, doc => ∃ file, found file ∧ doc = file.document

theorem replacing_program (context : IndexContext) {found : CollectedFile → Prop}
    {P : IndexOp → Prop} {call : IndexCall} (h : ¬ call.Clears) :
  Replacing found P (call.Adds context found) none (call.program context)
  := by
  cases call with
  | indexFile args => apply replacing_indexFile context (fun _ hdoc => hdoc)
  | indexDirectory args =>
      apply replacing_indexDirectory
      · intro file hfile
        exact ⟨file, hfile, rfl⟩
      · apply Bool.eq_false_iff.mpr h

/-- Where a document was, in the reader, in the last snapshot and in the writer, a call that has
returned has kept it, and it stays there in the run that goes on. -/
theorem kept_of_run (context : IndexContext) {found : CollectedFile → Prop} {call : IndexCall}
    (hcall : ¬ call.Clears) {d : IndexDocument} {s : IndexState}
    (hd : s.Everywhere (fun docs => d ∈ docs)) {threads : List IndexThread} {i : ℕ}
    (hi : threads[i]? = some (call.program context)) {c : IndexPool}
    (hrun : Pool.Run (IndexOp.StepFinding found (IndexOp.AddsAt d.path)) (Untargeted i d.path)
      ⟨s, threads⟩ c)
    {outcome : Outcome String Json} (hreturned : c.threads[i]? = some (.ret outcome)) :
  c.state.Everywhere (Kept (call.Adds context found) d)
  := by
  have hstart : s.Everywhere (Kept (call.Adds context found) d) :=
    ⟨kept_self hd.loaded, kept_self hd.published, kept_self hd.current⟩
  have hkeeping := hrun.invariant keeping_step
    ⟨_, _, hi, replacing_program context hcall, hstart.visible, fun _ => hstart⟩
  obtain ⟨t, pending, hi', hreplacing, -, hkept⟩ := hkeeping
  obtain rfl : Program.ret outcome = t := Option.some.inj (hreturned.symm.trans hi')
  apply hkept
  rcases hreplacing with _ | _
  rintro ⟨⟩

/-! ### Calls that clear first -/

section Clearing

variable {found : CollectedFile → Prop} {P : IndexOp → Prop} {new : IndexDocument → Prop}

/-- A call that replaces documents adds nothing else. -/
theorem Replacing.adds_only {t : IndexThread} {pending : Option String}
    (h : Replacing found P new pending t) {s s' : IndexState} {outcome : Outcome String Json}
    (hexec : Program.Exec (IndexOp.StepFinding found P) t s outcome s')
    (hs : s.Everywhere (fun docs => ∀ doc ∈ docs, new doc)) :
  s'.Everywhere (fun docs => ∀ doc ∈ docs, new doc)
  := by
  induction hexec generalizing pending with
  | ret => apply hs
  | @step op k s₁ s₂ s₃ x outcome hstep _ ih =>
      obtain ⟨hreplaces, hk⟩ := h.step_inv
      apply ih (hk x hstep.1.2 hstep.2)
      apply hs.step _ hstep.1.1
      intro change hqueues docs hdocs doc hdoc
      cases change with
      | delete path => apply hdocs doc (List.mem_filter.mp hdoc).1
      | add added =>
          rcases List.mem_append.mp hdoc with hdoc | hdoc
          · apply hdocs doc hdoc
          · obtain rfl := List.mem_singleton.mp hdoc
            cases op with
            | addDocument doc' =>
                obtain ⟨-, ⟨⟩⟩ := hqueues
                apply hreplaces.2
            | deleteDocument path => cases hqueues.2
            | clear => cases hqueues
            | _ => cases hqueues
      | deleteAll => cases hdoc

/-- Documents as the reader, the last snapshot or the writer had them, or none. -/
def IndexState.Had (s : IndexState) (docs : List IndexDocument) : Prop :=
  docs = [] ∨ docs = s.loaded ∨ docs = s.store.published
    ∨ docs = s.store.current IndexDocument.path

/-- What a call of `index_directory` that clears the index first leaves when it fails: there was
nothing to walk; or the call could not clear the index, which may be as it was or empty; or there
is nothing but what the call added. -/
inductive LeftByClearing (found : CollectedFile → Prop) (args : Json) (s : IndexState) :
    Failure String → IndexState → Prop
  | refused {e : Failure String} : walkArguments args = .error e → LeftByClearing found args s e s
  | notCleared {e : String} {s' : IndexState} :
      s'.Everywhere s.Had →
      LeftByClearing found args s (.err ("clear_index failed: " ++ e)) s'
  | cleared {e : Failure String} {s' : IndexState} :
      s'.Everywhere (fun docs => ∀ doc ∈ docs, ∃ file, found file ∧ doc = file.document) →
      LeftByClearing found args s e s'

theorem cleared_store (s : IndexState) :
  (s.queue .deleteAll).publish.store = ⟨[], []⟩
  := by
  rw [IndexState.publish, Staged.publish, IndexState.queue, Staged.current_queue]
  rfl

/-- Clearing the index may fail with the documents as they were or with none; when it succeeds
there are none. -/
theorem exec_clearIndex {s s' : IndexState} {r : Outcome String (Except String Unit)}
    (hexec : Program.Exec (IndexOp.StepFinding found P) IndexManager.clearIndex s r s') :
  (∃ e, r = .ok (.error e) ∧ s'.Everywhere s.Had)
    ∨ r = .ok (.ok ()) ∧ s'.Everywhere (fun docs => docs = [])
  := by
  obtain ⟨x, s₁, ⟨⟨hclears, -⟩, -⟩, hexec⟩ := Program.exec_step.mp hexec
  have hsame : s₁.Everywhere s.Had := by
    apply IndexState.Everywhere.step (s := s) _ _ hclears
    · exact ⟨Or.inr (Or.inl rfl), Or.inr (Or.inr (Or.inl rfl)), Or.inr (Or.inr (Or.inr rfl))⟩
    · rintro change rfl docs -
      exact Or.inl rfl
  rcases x with e | ⟨⟩
  · obtain ⟨rfl, rfl⟩ := Program.exec_ret.mp hexec
    exact Or.inl ⟨e, rfl, hsame⟩
  · obtain ⟨y, s₂, ⟨⟨hreloads, -⟩, -⟩, hexec⟩ := Program.exec_step.mp hexec
    obtain ⟨rfl, rfl⟩ := Program.exec_ret.mp hexec
    rcases y with e | ⟨⟩
    · refine Or.inl ⟨e, rfl, hsame.step ?_ hreloads⟩
      rintro change ⟨⟩
    · have hstore : s₁.store = ⟨[], []⟩ := by
        obtain ⟨t, rfl, rfl | rfl⟩ := hclears
        · apply cleared_store
        · apply cleared_store
      have hempty : s₁.reload.Everywhere (fun docs => docs = []) := by
        rw [IndexState.reload, hstore]
        exact ⟨rfl, rfl, rfl⟩
      refine Or.inr ⟨rfl, ?_⟩
      obtain ⟨t, rfl, rfl | rfl⟩ := hreloads
      · apply hempty
      · apply hempty.reload

theorem left_of_clears {args : Json} (hclear : clearFirst args = true) {s s' : IndexState}
    {e : Failure String}
    (hexec : Program.Exec (IndexOp.StepFinding found (fun _ => False)) (handleIndexDirectory args)
      s (.error e) s') :
  LeftByClearing found args s e s'
  := by
  rcases Program.exec_fallible_bind.mp hexec with
    ⟨⟨path, exclude, supported⟩, s₁, hwalk, hindex⟩ | ⟨e', ⟨⟩, hwalk⟩
  · obtain ⟨-, rfl⟩ := Program.exec_ret.mp hwalk
    simp only [hclear] at hindex
    rcases Program.exec_fallible_bind.mp hindex with ⟨r, s₂, hcleared, hrest⟩ | ⟨e', -, hcleared⟩
    · rcases exec_clearIndex hcleared with ⟨e', ⟨⟩, hsame⟩ | ⟨⟨⟩, hempty⟩
      · obtain ⟨⟨⟩, rfl⟩ := Program.exec_ret.mp hrest
        apply LeftByClearing.notCleared hsame
      · apply LeftByClearing.cleared
        apply (replacing_indexTree (fun file hfile => ⟨file, hfile, rfl⟩) path exclude
          supported).adds_only hrest
        constructor
        · rw [hempty.loaded]
          rintro doc ⟨⟩
        · rw [hempty.published]
          rintro doc ⟨⟩
        · rw [hempty.current]
          rintro doc ⟨⟩
    · rcases exec_clearIndex hcleared with ⟨e'', ⟨⟩, -⟩ | ⟨⟨⟩, -⟩
  · obtain ⟨hrefused, rfl⟩ := Program.exec_ret.mp hwalk
    apply LeftByClearing.refused hrefused.symm

end Clearing

/-! ### What a failed call leaves -/

/-- A document that is not to be deleted is there after a call has failed that does not clear,
and stays there, or the call has replaced it; unless the call failed to add a document at its
path.  A call that clears first leaves nothing but what it added, once it has cleared. -/
theorem left_by_failed (context : IndexContext) (found : CollectedFile → Prop) :
  (∀ (call : IndexCall) (d : IndexDocument) (s : IndexState) (threads : List IndexThread) (i : ℕ)
      (c : IndexPool) (e : Failure String),
      ¬ call.Clears → s.Everywhere (fun docs => d ∈ docs) →
      threads[i]? = some (call.program context) →
      Pool.Run (IndexOp.StepFinding found (IndexOp.AddsAt d.path)) (Untargeted i d.path)
        ⟨s, threads⟩ c →
      c.threads[i]? = some (.ret (.error e)) →
        c.state.Everywhere (Kept (call.Adds context found) d))
    ∧ ∀ (args : Json) (s s' : IndexState) (e : Failure String), clearFirst args = true →
      Program.Exec (IndexOp.StepFinding found (fun _ => False)) (handleIndexDirectory args)
        s (.error e) s' →
        LeftByClearing found args s e s'
  := by
  constructor
  · intro call d s threads i c e hcall hd hi hrun hreturned
    apply kept_of_run context hcall hd hi hrun hreturned
  · intro args s s' e hclear hexec
    apply left_of_clears hclear hexec

section NoteFile

/-- The index of one note, which the reader has loaded. -/
def notedIndex : IndexState :=
  ⟨⟨[noteDocument], []⟩, [noteDocument]⟩

/-- The arguments of a call that clears the index and then indexes `src`. -/
def clearSrcArgs : Json :=
  .object [("clear_first", .bool true), ("path", .string "src")]

/-- The walk of `src` fails after the index was cleared. -/
theorem exec_clearSrc :
  Program.Exec (IndexOp.StepFinding (fun _ => False) (fun _ => False))
    (handleIndexDirectory clearSrcArgs) notedIndex
    (.error (.err "spawn_blocking failed: task panicked")) IndexState.empty
  := by
  have hwalk : walkArguments clearSrcArgs
      = .ok ("src", defaultExcludes ++ [], LanguageRegistry.new.extensions.map Prod.fst) := rfl
  rw [handleIndexDirectory, hwalk]
  apply @Program.Exec.step _ _ _ _ _ IndexOp.clear _ _ ⟨⟨[], []⟩, [noteDocument]⟩ _
    (Except.ok () : Except String Unit)
  · exact ⟨⟨⟨_, rfl, Or.inl rfl⟩, False.elim⟩, trivial⟩
  apply @Program.Exec.step _ _ _ _ _ IndexOp.reload _ _ IndexState.empty _
    (Except.ok () : Except String Unit)
  · exact ⟨⟨⟨_, rfl, Or.inl rfl⟩, False.elim⟩, trivial⟩
  apply @Program.Exec.step _ _ _ _ _ (IndexOp.collectFiles _ _ _) _ _ IndexState.empty _
    (Except.error "task panicked" : Except String (List CollectedFile))
  · refine ⟨⟨⟨_, rfl, Or.inl rfl⟩, False.elim⟩, ?_⟩
    rintro files ⟨⟩
  apply Program.Exec.ret

/-- Of two calls the second takes a step that does not target the path. -/
theorem untargeted_second {s : IndexState} {op : IndexOp} {k : IndexAns op → IndexThread}
    {t : IndexThread} {path : String} (hdelete : op ≠ .deleteDocument path) (hclear : op ≠ .clear)
    (hcommit : op = .commit → addingPath t ≠ some path) :
  Untargeted 0 path 1 ⟨s, [t, .step op k]⟩
  := by
  rintro - op' k' ⟨⟩
  use hdelete, hclear
  rintro hop u ⟨⟩
  apply hcommit hop

/-- A commit fails for a full disk while another call adds a file, whose commit publishes what the
failed call had queued; and a walk fails after the index was cleared. -/
theorem left_by_fullDisk :
  (∃ c : IndexPool,
      Pool.Run (IndexOp.StepFinding (fun _ => False) (IndexOp.AddsAt noteDocument.path))
        (Untargeted 0 noteDocument.path)
        ⟨notedIndex, [IndexCall.indexFile noteFileArgs, IndexCall.indexFile todoFileArgs].map
          (IndexCall.program plainContext)⟩ c
      ∧ c.threads[0]? = some (.ret (.error (.err "disk full")))
      ∧ c.state.loaded = [noteDocument, todoDocument]
      ∧ c.state.Everywhere
        (Kept ((IndexCall.indexFile noteFileArgs).Adds plainContext (fun _ => False)) noteDocument))
    ∧ LeftByClearing (fun _ => False) clearSrcArgs notedIndex
      (.err "spawn_blocking failed: task panicked") IndexState.empty
  := by
  have hleft := left_by_failed plainContext (fun _ => False)
  constructor
  · have hstart : Pool.Run
        (IndexOp.StepFinding (fun _ => False) (IndexOp.AddsAt noteDocument.path))
        (Untargeted 0 noteDocument.path)
        ⟨notedIndex, [IndexCall.indexFile noteFileArgs, IndexCall.indexFile todoFileArgs].map
          (IndexCall.program plainContext)⟩
        ⟨notedIndex, [replacing noteDocument, replacing todoDocument]⟩ := by
      rw [List.map_cons, List.map_singleton, program_noteFile, program_todoFile]
      apply Pool.Run.refl
    have hown : ∀ c, Untargeted 0 noteDocument.path 0 c := fun _ hne => absurd rfl hne
    have hpaths : todoDocument.path ≠ noteDocument.path := by decide
    have hdelete : IndexOp.deleteDocument todoDocument.path ≠ .deleteDocument noteDocument.path :=
      fun h => hpaths (IndexOp.deleteDocument.inj h)
    have hfull : ∀ s, IndexOp.StepFinding (fun _ => False) (IndexOp.AddsAt noteDocument.path)
        .commit s (Except.error "disk full" : Except String Unit) s :=
      fun s => ⟨⟨⟨s, Or.inl rfl, Or.inl rfl⟩, False.elim⟩, trivial⟩
    have hreload : ∀ s, IndexOp.Step .reload s (Except.ok () : Except String Unit) s.reload :=
      fun s => ⟨s.reload, rfl, Or.inl rfl⟩
    have hrun := hstart.next 1 _ rfl (untargeted_second hdelete nofun nofun)
      ⟨⟨(reliable_delete _ "todo.txt").1, False.elim⟩, trivial⟩ rfl
    replace hrun := hrun.next 0 _ rfl (hown _)
      ⟨⟨(reliable_delete _ "note.txt").1, False.elim⟩, trivial⟩ rfl
    replace hrun := hrun.next 0 _ rfl (hown _)
      ⟨⟨(reliable_add _ noteDocument).1, fun _ => rfl⟩, trivial⟩ rfl
    replace hrun := hrun.next 0 _ rfl (hown _) (hfull _) rfl
    -- The first call has failed, and the second one goes on.
    replace hrun := hrun.next 1 _ rfl (untargeted_second nofun nofun nofun)
      ⟨⟨(reliable_add _ todoDocument).1, fun h => absurd h hpaths⟩, trivial⟩ rfl
    replace hrun := hrun.next 1 _ rfl (untargeted_second nofun nofun (fun _ => nofun))
      ⟨⟨(reliable_commit _).1, False.elim⟩, trivial⟩ rfl
    replace hrun := hrun.next 1 _ rfl (untargeted_second nofun nofun nofun)
      ⟨⟨hreload _, False.elim⟩, trivial⟩ rfl
    have hnoted : notedIndex.Everywhere (fun docs => noteDocument ∈ docs) :=
      ⟨List.mem_cons_self, List.mem_cons_self, List.mem_cons_self⟩
    exact ⟨_, hrun, rfl, rfl, hleft.1 (.indexFile noteFileArgs) noteDocument notedIndex _ 0 _ _ id
      hnoted rfl hrun rfl⟩
  · apply hleft.2 clearSrcArgs notedIndex IndexState.empty _ rfl exec_clearSrc

/-- A call that clears first and whose walk then fails has removed the note. -/
theorem not_kept_clearSrc :
  ¬ ∀ (context : IndexContext) (calls : List IndexCall) (c : IndexPool) (call : IndexCall)
      (e : Failure String) (s' : IndexState),
      Pool.Run IndexOp.Step Pool.anyStep
        ⟨IndexState.empty, calls.map (IndexCall.program context)⟩ c →
      Program.Exec IndexOp.Step (call.program context) c.state (.error e) s' →
        ∀ d ∈ c.state.loaded, ∃ d' ∈ s'.loaded, d'.path = d.path
  := by
  intro h
  have hstart : Pool.Run IndexOp.Step Pool.anyStep
      ⟨IndexState.empty, [IndexCall.indexFile noteFileArgs].map (IndexCall.program plainContext)⟩
      ⟨IndexState.empty, [replacing noteDocument]⟩ := by
    rw [List.map_singleton, program_noteFile]
    apply Pool.Run.refl
  have hcommit : IndexOp.Step .commit
      ((IndexState.empty.queue (.delete "note.txt")).queue (.add noteDocument))
      (Except.ok () : Except String Unit) notedIndex :=
    ⟨_, rfl, Or.inr rfl⟩
  have hrun := hstart.next 0 _ rfl trivial (reliable_delete _ "note.txt").1 rfl
  replace hrun := hrun.next 0 _ rfl trivial (reliable_add _ noteDocument).1 rfl
  replace hrun := hrun.next 0 _ rfl trivial hcommit rfl
  have hexec := exec_clearSrc.mono (fun _ _ _ _ hstep => hstep.1.1)
  obtain ⟨d', ⟨⟩, -⟩ := h plainContext _ _ (.indexDirectory clearSrcArgs) _ _ hrun hexec
    noteDocument List.mem_cons_self

end NoteFile

end OrchestraRag
