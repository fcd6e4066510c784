import OrchestraRag.Lsp.Concurrent
import OrchestraRag.Lsp.Service

/-!
# Versions of a document

Each update of an open document runs in its own task, so the updates of a document are applied
in any order (`docs_of_run`).  The version of an update is stored and not compared with the
one that is there.  Hence the updates converge on the one with the highest version exactly
when it is applied last and every text can be cut, and the stored version never decreases
exactly when the versions come in order (`updates_converge_iff`).
-/

namespace OrchestraRag

/-- What a call of `update_document` carries. -/
structure DocumentUpdate where
  content : String
  version : Int64
  deriving DecidableEq

variable {treeSitter : TreeSitter} {store : DocumentStore} {path : String} {old : Document}

/-! ### One update -/

namespace DocumentStore

theorem update_of_poisoned (h : store.poisoned = true) (content : String) (version : Int64) :
  store.update treeSitter path content version = (.error lockPoisoned, store)
  := by
  rw [update, if_pos h]

/-- An update whose text can be cut is stored, with its symbols. -/
theorem update_of_cuttable (hs : store.Sound treeSitter)
    (hget : store.documents.get path = some old) {u : DocumentUpdate}
    (hcut : TextCuttable treeSitter u.content old.language) :
  ∃ doc, (store.update treeSitter path u.content u.version).2.Sound treeSitter
    ∧ (store.update treeSitter path u.content u.version).2.documents.get path = some doc
    ∧ doc.language = old.language ∧ doc.content = u.content ∧ doc.version = u.version
    ∧ freshSymbols treeSitter u.content old.language = .ok doc.symbols
  := by
  obtain ⟨symbols, hsymbols⟩ := (freshSymbols_okIff u.content old.language).ok hcut
  obtain ⟨extractor, hcoherent, hupdate⟩ := update_eq hs hget u.content u.version
  obtain rfl := Documents.path_of_get hget
  rw [hupdate, hsymbols]
  refine ⟨_, ⟨hcoherent, rfl⟩, Documents.get_insert_self _ _, rfl, rfl, rfl, rfl⟩

/-- An update whose text cannot be cut is stored without its symbols, and poisons the mutex. -/
theorem update_of_not_cuttable (hs : store.Sound treeSitter)
    (hget : store.documents.get path = some old) {u : DocumentUpdate}
    (hcut : ¬ TextCuttable treeSitter u.content old.language) :
  (store.update treeSitter path u.content u.version).2.poisoned = true
    ∧ (store.update treeSitter path u.content u.version).2.documents.get path
      = some { old with content := u.content, version := u.version }
  := by
  obtain ⟨extractor, -, hupdate⟩ := update_eq hs hget u.content u.version
  obtain rfl := Documents.path_of_get hget
  rw [hupdate, (freshSymbols_okIff u.content old.language).panicked hcut]
  refine ⟨rfl, Documents.get_insert_self _ { old with content := u.content, version := u.version }⟩

/-! ### One after another -/

/-- The store after updates of a document, one after another. -/
def updateAll (treeSitter : TreeSitter) (path : String) (updates : List DocumentUpdate)
    (store : DocumentStore) : DocumentStore :=
  updates.foldl (fun store u => (store.update treeSitter path u.content u.version).2) store

theorem updateAll_concat (before : List DocumentUpdate) (u : DocumentUpdate) :
  store.updateAll treeSitter path (before ++ [u])
    = ((store.updateAll treeSitter path before).update treeSitter path u.content u.version).2
  := by
  rw [updateAll, List.foldl_append]
  rfl

theorem updateAll_of_poisoned (h : store.poisoned = true) (updates : List DocumentUpdate) :
  store.updateAll treeSitter path updates = store
  := by
  induction updates with
  | nil => rfl
  | cons u updates ih =>
      rw [updateAll, List.foldl_cons, update_of_poisoned h]
      apply ih

/-- Updates whose texts can be cut leave the last of them stored. -/
theorem updateAll_of_cuttable (hs : store.Sound treeSitter)
    (hget : store.documents.get path = some old) {updates : List DocumentUpdate}
    (hcut : ∀ u ∈ updates, TextCuttable treeSitter u.content old.language) :
  (store.updateAll treeSitter path updates).Sound treeSitter
    ∧ ∃ doc, (store.updateAll treeSitter path updates).documents.get path = some doc
      ∧ doc.language = old.language ∧ (updates = [] → doc = old)
      ∧ ∀ before u, updates = before ++ [u] → doc.content = u.content ∧ doc.version = u.version
        ∧ freshSymbols treeSitter u.content old.language = .ok doc.symbols
  := by
  induction updates using List.reverseRecOn with
  | nil =>
      refine ⟨hs, old, hget, rfl, fun _ => rfl, ?_⟩
      intro before u h
      simp at h
  | append_singleton before u ih =>
      obtain ⟨hsound, doc, hdoc, hlanguage, -⟩ := ih (fun w hw => hcut w (List.mem_append_left _ hw))
      have hu : TextCuttable treeSitter u.content doc.language := by
        rw [hlanguage]
        apply hcut
        simp
      obtain ⟨doc', hsound', hget', hlanguage', hcontent, hversion, hsymbols⟩ :=
        update_of_cuttable hsound hdoc hu
      rw [hlanguage] at hlanguage' hsymbols
      rw [updateAll_concat]
      refine ⟨hsound', doc', hget', hlanguage', ?_, ?_⟩
      · intro h
        simp at h
      · intro before' u' h
        obtain ⟨-, hu'⟩ := List.append_inj' h rfl
        obtain rfl := List.singleton_inj.mp hu'
        exact ⟨hcontent, hversion, hsymbols⟩

/-- The first update whose text cannot be cut is stored without its symbols, and the ones
after it are refused. -/
theorem updateAll_of_not_cuttable (hs : store.Sound treeSitter)
    (hget : store.documents.get path = some old) {before : List DocumentUpdate}
    {u : DocumentUpdate} (after : List DocumentUpdate)
    (hcut : ∀ w ∈ before, TextCuttable treeSitter w.content old.language)
    (hu : ¬ TextCuttable treeSitter u.content old.language) :
  store.updateAll treeSitter path (before ++ u :: after)
      = store.updateAll treeSitter path (before ++ [u])
    ∧ ∃ doc, (store.updateAll treeSitter path (before ++ [u])).documents.get path = some doc
      ∧ doc.language = old.language ∧ doc.content = u.content ∧ doc.version = u.version
  := by
  obtain ⟨hsound, doc, hdoc, hlanguage, -⟩ := updateAll_of_cuttable hs hget hcut
  rw [← hlanguage] at hu
  obtain ⟨hpoisoned, hget'⟩ := update_of_not_cuttable hsound hdoc hu
  rw [← updateAll_concat] at hpoisoned hget'
  constructor
  · rw [List.append_cons, updateAll, List.foldl_append]
    apply updateAll_of_poisoned hpoisoned
  · exact ⟨_, hget', hlanguage, rfl, rfl⟩

end DocumentStore

/-- A list with an element that does not satisfy `P` has a first one. -/
theorem exists_first_not {α : Type*} {P : α → Prop} {l : List α} (h : ¬ ∀ a ∈ l, P a) :
  ∃ before a after, l = before ++ a :: after ∧ (∀ b ∈ before, P b) ∧ ¬ P a
  := by
  induction l with
  | nil => simp at h
  | cons a l ih =>
      by_cases ha : P a
      · have hl : ¬ ∀ b ∈ l, P b := by
          intro hl
          apply h
          apply List.forall_mem_cons.mpr ⟨ha, hl⟩
        obtain ⟨before, b, after, rfl, hbefore, hb⟩ := ih hl
        refine ⟨a :: before, b, after, rfl, ?_, hb⟩
        apply List.forall_mem_cons.mpr ⟨ha, hbefore⟩
      · exact ⟨[], a, l, rfl, by simp, ha⟩

/-! ### Converging -/

namespace DocumentStore

/-- The document has the content, the version and the symbols of the update with the highest
version. -/
def Converged (treeSitter : TreeSitter) (path : String) (updates : List DocumentUpdate)
    (store : DocumentStore) : Prop :=
  ∃ doc u, store.documents.get path = some doc ∧ u ∈ updates
    ∧ (∀ w ∈ updates, w.version ≤ u.version)
    ∧ doc.content = u.content ∧ doc.version = u.version
    ∧ freshSymbols treeSitter u.content doc.language = .ok doc.symbols

/-- No update lowers the version that is stored. -/
def NeverDecreases (treeSitter : TreeSitter) (path : String) (updates : List DocumentUpdate)
    (store : DocumentStore) : Prop :=
  ∀ before u after, updates = before ++ u :: after → ∀ doc doc',
    (store.updateAll treeSitter path before).documents.get path = some doc →
    (store.updateAll treeSitter path (before ++ [u])).documents.get path = some doc' →
      doc.version ≤ doc'.version

/-- Updates with different versions converge exactly when every text can be cut and the one with
the highest version comes last. -/
theorem converged_iff (hs : store.Sound treeSitter) (hget : store.documents.get path = some old)
    {updates : List DocumentUpdate} (hdistinct : (updates.map DocumentUpdate.version).Nodup)
    (hne : updates ≠ []) :
  (store.updateAll treeSitter path updates).Converged treeSitter path updates
    ↔ (∀ u ∈ updates, TextCuttable treeSitter u.content old.language)
      ∧ ∀ u ∈ updates, u.version ≤ (updates.getLast hne).version
  := by
  have hlast := (List.dropLast_append_getLast hne).symm
  by_cases hcut : ∀ u ∈ updates, TextCuttable treeSitter u.content old.language
  · obtain ⟨-, doc, hdoc, hlanguage, -, hstored⟩ := updateAll_of_cuttable hs hget hcut
    obtain ⟨hcontent, hversion, hsymbols⟩ := hstored _ _ hlast
    rw [← hlanguage] at hsymbols
    constructor
    · rintro ⟨doc', u, hdoc', -, hhighest, -, hversion', -⟩
      refine ⟨hcut, ?_⟩
      obtain rfl := Option.some.inj (hdoc.symm.trans hdoc')
      rw [← hversion, hversion']
      apply hhighest
    · rintro ⟨-, hhighest⟩
      exact ⟨doc, _, hdoc, List.getLast_mem hne, hhighest, hcontent, hversion, hsymbols⟩
  · constructor
    · rintro ⟨doc, u, hdoc, hmem, -, -, hversion, hsymbols⟩
      obtain ⟨before, v, after, rfl, hbefore, hv⟩ := exists_first_not hcut
      obtain ⟨heq, doc', hdoc', hlanguage, hcontent', hversion'⟩ :=
        updateAll_of_not_cuttable hs hget after hbefore hv
      rw [heq] at hdoc
      obtain rfl := Option.some.inj (hdoc.symm.trans hdoc')
      have huv : u = v := by
        apply List.inj_on_of_nodup_map hdistinct hmem
        · simp
        · rw [← hversion, hversion']
      rw [huv, hlanguage, (freshSymbols_okIff v.content old.language).panicked hv] at hsymbols
      cases hsymbols
    · intro h
      cases hcut h.1

/-- After an update that is not refused its version is stored. -/
theorem version_updateAll_concat (hs : store.Sound treeSitter)
    (hget : store.documents.get path = some old) {before : List DocumentUpdate}
    (hcut : ∀ w ∈ before, TextCuttable treeSitter w.content old.language) (u : DocumentUpdate) :
  ∃ doc, (store.updateAll treeSitter path (before ++ [u])).documents.get path = some doc
    ∧ doc.version = u.version
  := by
  by_cases hu : TextCuttable treeSitter u.content old.language
  · have hall : ∀ w ∈ before ++ [u], TextCuttable treeSitter w.content old.language := by
      intro w hw
      rcases List.mem_append.mp hw with hw | hw
      · apply hcut w hw
      · obtain rfl := List.mem_singleton.mp hw
        apply hu
    obtain ⟨-, doc, hdoc, -, -, hstored⟩ := updateAll_of_cuttable hs hget hall
    exact ⟨doc, hdoc, (hstored before u rfl).2.1⟩
  · obtain ⟨-, doc, hdoc, -, -, hversion⟩ := updateAll_of_not_cuttable hs hget [] hcut hu
    exact ⟨doc, hdoc, hversion⟩

/-- After an update whose text cannot be cut the store stays as it is. -/
theorem updateAll_concat_of_not_cuttable (hs : store.Sound treeSitter)
    (hget : store.documents.get path = some old) {before : List DocumentUpdate}
    (hcut : ¬ ∀ w ∈ before, TextCuttable treeSitter w.content old.language) (u : DocumentUpdate) :
  store.updateAll treeSitter path (before ++ [u]) = store.updateAll treeSitter path before
  := by
  obtain ⟨first, v, rest, rfl, hfirst, hv⟩ := exists_first_not hcut
  rw [(updateAll_of_not_cuttable hs hget rest hfirst hv).1, List.append_assoc, List.cons_append]
  apply (updateAll_of_not_cuttable hs hget _ hfirst hv).1

/-- The stored version never decreases exactly when the versions come in order, up to the first
text that cannot be cut. -/
theorem neverDecreases_iff (hs : store.Sound treeSitter)
    (hget : store.documents.get path = some old) {updates : List DocumentUpdate}
    (hdistinct : (updates.map DocumentUpdate.version).Nodup)
    (hgreater : ∀ u ∈ updates, old.version < u.version) :
  store.NeverDecreases treeSitter path updates
    ↔ ∀ before v u after, updates = before ++ v :: u :: after →
      (∀ w ∈ before ++ [v], TextCuttable treeSitter w.content old.language) →
        v.version < u.version
  := by
  constructor
  · rintro h before v u after rfl hcut
    obtain ⟨-, doc, hdoc, -, -, hstored⟩ := updateAll_of_cuttable hs hget hcut
    obtain ⟨doc', hdoc', hversion⟩ := version_updateAll_concat hs hget hcut u
    have hle := h (before ++ [v]) u after (by simp) doc doc' hdoc hdoc'
    rw [(hstored before v rfl).2.1, hversion] at hle
    apply Int64.lt_of_le_of_ne hle
    intro heq
    rw [List.map_append, List.map_cons, List.map_cons, heq] at hdistinct
    obtain ⟨hnotMem, -⟩ := List.nodup_cons.mp hdistinct.of_append_right
    apply hnotMem List.mem_cons_self
  · rintro h before u after rfl doc doc' hdoc hdoc'
    by_cases hcut : ∀ w ∈ before, TextCuttable treeSitter w.content old.language
    · obtain ⟨-, doc₁, hdoc₁, -, hnil, hstored⟩ := updateAll_of_cuttable hs hget hcut
      obtain ⟨doc₂, hdoc₂, hversion⟩ := version_updateAll_concat hs hget hcut u
      obtain rfl := Option.some.inj (hdoc.symm.trans hdoc₁)
      obtain rfl := Option.some.inj (hdoc'.symm.trans hdoc₂)
      rw [hversion]
      apply Int64.le_of_lt
      rcases List.eq_nil_or_concat' before with rfl | ⟨first, v, rfl⟩
      · rw [hnil rfl]
        apply hgreater
        simp
      · rw [(hstored first v rfl).2.1]
        apply h first v u after (by simp) hcut
    · rw [updateAll_concat_of_not_cuttable hs hget hcut, hdoc] at hdoc'
      obtain rfl := Option.some.inj hdoc'
      apply Int64.le_refl

end DocumentStore

/-! ### Updates at once -/

namespace Phase

/-- The phases of an update of a document. -/
def Updates (path : String) : Phase → Prop
  | .updating path' _ _ => path' = path
  | .syncing _ _ => True
  | .writing _ _ _ => True
  | .done _ => True
  | _ => False

/-- The update that a call has yet to apply. -/
def update? : Phase → Option DocumentUpdate
  | .updating _ content version => some ⟨content, version⟩
  | _ => none

/-- A step of an update applies it, if that was not done, and goes on without it. -/
theorem step_updates {phase : Phase} {op : LspOp} {k : LspAns op → LspThread} {x : LspAns op}
    {s s' : LspStore} (hphase : phase.Updates path) (hthread : phase.thread = .step op k)
    (hstep : LspOp.Step treeSitter op s x s') :
  ∃ phase' : Phase, k x = phase'.thread ∧ phase'.Updates path ∧ phase'.update? = none
    ∧ s'.docs = s.docs.updateAll treeSitter path phase.update?.toList
  := by
  cases phase with
  | updating path' content version =>
      obtain rfl := hphase
      cases hthread
      obtain ⟨hupdate, -⟩ := hstep
      have hdocs := (congrArg Prod.snd hupdate).symm
      rcases (x : Outcome String ℕ) with e | count
      · exact ⟨.done (.error e), rfl, trivial, rfl, hdocs⟩
      · exact ⟨.syncing path' count, rfl, trivial, rfl, hdocs⟩
  | syncing path' count =>
      cases hthread
      obtain ⟨-, rfl⟩ := hstep
      rcases (x : Outcome String (Option Document)) with e | _ | doc
      · exact ⟨.done (.error e), rfl, trivial, rfl, rfl⟩
      · exact ⟨.done (.ok (.symbols count)), rfl, trivial, rfl, rfl⟩
      · exact ⟨.writing doc.path doc.symbols count, rfl, trivial, rfl, rfl⟩
  | writing path' symbols count =>
      cases hthread
      exact ⟨.done _, rfl, trivial, rfl, hstep.2⟩
  | done outcome => cases hthread
  | _ => cases hphase

end Phase

/-- Replacing an element that maps to nothing more moves what it mapped to out of the list. -/
theorem filterMap_set_perm {α β : Type*} {f : α → Option β} {l : List α} {i : ℕ} {a b : α}
    (hi : l[i]? = some a) (hb : f b = none) :
  ((f a).toList ++ (l.set i b).filterMap f).Perm (l.filterMap f)
  := by
  obtain ⟨hlt, rfl⟩ := List.getElem?_eq_some_iff.mp hi
  have hsplit : ∃ l₁ l₂, l = l₁ ++ l[i] :: l₂ ∧ l₁.length = i ∧ l.set i b = l₁ ++ b :: l₂ :=
    List.exists_of_set hlt
  obtain ⟨l₁, l₂, hl, -, hset⟩ := hsplit
  rw [hset, List.filterMap_append, List.filterMap_cons_none hb]
  conv_rhs => rw [hl, List.filterMap_append, List.filterMap_cons]
  cases f l[i] with
  | none => apply List.Perm.refl
  | some y =>
      apply List.Perm.symm
      apply List.perm_middle

/-- The updates of a document that were applied, in some order, and the ones that were not. -/
def Applied (treeSitter : TreeSitter) (path : String) (store : DocumentStore)
    (updates : List DocumentUpdate) (c : LspPool) : Prop :=
  ∃ (phases : List Phase) (order : List DocumentUpdate), c.threads = phases.map Phase.thread
    ∧ (∀ phase ∈ phases, phase.Updates path)
    ∧ c.state.docs = store.updateAll treeSitter path order
    ∧ (order ++ phases.filterMap Phase.update?).Perm updates

theorem applied_step {updates : List DocumentUpdate} (i : ℕ) (c c' : LspPool)
    (hc : Applied treeSitter path store updates c) (_ : Pool.anyStep i c)
    (hstep : Pool.Step (LspOp.Step treeSitter) i c c') :
  Applied treeSitter path store updates c'
  := by
  obtain ⟨phases, order, hthreads, hphases, hdocs, hperm⟩ := hc
  obtain ⟨op, k, x, hi, hop, hthreads'⟩ := (Pool.step_iff _).mp hstep
  rw [hthreads, List.getElem?_map] at hi
  obtain ⟨phase, hphase, hthread⟩ := Option.map_eq_some_iff.mp hi
  obtain ⟨phase', hk, hupdates, hnone, hdocs'⟩ :=
    Phase.step_updates (hphases phase (List.mem_of_getElem? hphase)) hthread hop
  refine ⟨phases.set i phase', order ++ phase.update?.toList, ?_, ?_, ?_, ?_⟩
  · rw [hthreads', hthreads, hk, List.map_set]
  · intro other hmem
    rcases List.mem_or_eq_of_mem_set hmem with hmem | rfl
    · apply hphases other hmem
    · apply hupdates
  · rw [hdocs', hdocs, DocumentStore.updateAll, DocumentStore.updateAll, DocumentStore.updateAll,
      List.foldl_append]
  · rw [List.append_assoc]
    apply ((filterMap_set_perm hphase hnone).append_left order).trans hperm

/-- Updates of a document that run at once, and index its symbols, are applied in some order. -/
theorem docs_of_run {s : LspStore} {updates : List DocumentUpdate} {c : LspPool}
    (hrun : Pool.Run (LspOp.Step treeSitter) Pool.anyStep
      ⟨s, updates.map (fun u => (LspCall.updateDocument path u.content u.version).program)⟩ c)
    (hreturned : c.Returned) :
  ∃ order : List DocumentUpdate, order.Perm updates
    ∧ c.state.docs = s.docs.updateAll treeSitter path order
  := by
  have hstart : Applied treeSitter path s.docs updates
      ⟨s, updates.map (fun u => (LspCall.updateDocument path u.content u.version).program)⟩ := by
    refine ⟨updates.map (fun u => Phase.updating path u.content u.version), [], ?_, ?_, rfl, ?_⟩
    · rw [List.map_map]
      apply List.map_congr_left
      intro u _
      apply program_updateDocument
    · intro phase hmem
      obtain ⟨u, -, rfl⟩ := List.mem_map.mp hmem
      rfl
    · rw [List.nil_append, List.filterMap_map]
      apply List.Perm.of_eq
      apply List.filterMap_some
  obtain ⟨phases, order, hthreads, -, hdocs, hperm⟩ := hrun.invariant applied_step hstart
  have hnone : phases.filterMap Phase.update? = [] := by
    apply List.filterMap_eq_nil_iff.mpr
    intro phase hmem
    obtain ⟨outcome, hret⟩ := hreturned phase.thread (by
      rw [hthreads]
      apply List.mem_map_of_mem hmem)
    cases phase with
    | updating path' content version => cases hret
    | _ => rfl
  rw [hnone, List.append_nil] at hperm
  use order, hperm

/-! ### Out of order -/

/-- Updates of an open document, with different versions above the one it has, run at once and
are applied in some order.  In whichever order, the document ends with the content, the version
and the symbols of the highest one exactly when every text can be cut and the highest comes
last; and the stored version never decreases exactly when the versions come in order, up to the
first text that cannot be cut. -/
theorem updates_converge_iff {s : LspStore} (hs : s.docs.Sound treeSitter)
    (hget : s.docs.documents.get path = some old) {updates : List DocumentUpdate}
    (hdistinct : (updates.map DocumentUpdate.version).Nodup)
    (hgreater : ∀ u ∈ updates, old.version < u.version) :
  (∀ c : LspPool, Pool.Run (LspOp.Step treeSitter) Pool.anyStep
      ⟨s, updates.map (fun u => (LspCall.updateDocument path u.content u.version).program)⟩ c →
    c.Returned → ∃ order : List DocumentUpdate, order.Perm updates
      ∧ c.state.docs = s.docs.updateAll treeSitter path order)
  ∧ ∀ order : List DocumentUpdate, order.Perm updates →
    (∀ hne : order ≠ [],
      (s.docs.updateAll treeSitter path order).Converged treeSitter path order
        ↔ (∀ u ∈ order, TextCuttable treeSitter u.content old.language)
          ∧ ∀ u ∈ order, u.version ≤ (order.getLast hne).version)
    ∧ (s.docs.NeverDecreases treeSitter path order
      ↔ ∀ before v u after, order = before ++ v :: u :: after →
        (∀ w ∈ before ++ [v], TextCuttable treeSitter w.content old.language) →
          v.version < u.version)
  := by
  constructor
  · intro c hrun hreturned
    apply docs_of_run hrun hreturned
  · intro order hperm
    have hdistinct' : (order.map DocumentUpdate.version).Nodup :=
      (hperm.map _).nodup_iff.mpr hdistinct
    constructor
    · intro hne
      apply DocumentStore.converged_iff hs hget hdistinct' hne
    · apply DocumentStore.neverDecreases_iff hs hget hdistinct'
      intro u hu
      apply hgreater u (hperm.mem_iff.mp hu)

/-! ### Two updates of the sample document -/

theorem textCuttable_mainSource :
  TextCuttable sampleTreeSitter mainSource (some "rust")
  := by
  intro lang hlang
  obtain rfl := Option.some.inj hlang
  by_contra hcut
  have hpanicked := (SymbolExtractor.extractFresh_panicked_iff mainSource "rust").mpr hcut
  rw [extractFresh_mainSource] at hpanicked
  cases hpanicked

theorem textCuttable_empty :
  TextCuttable sampleTreeSitter "" (some "rust")
  := by
  intro lang hlang root hroot
  obtain rfl := Option.some.inj hlang
  have hlanguage : ParserWrapper.new.ensureLanguage sampleTreeSitter "rust"
      = (.ok (), ⟨⟨some ⟨"tree_sitter_rust::LANGUAGE"⟩⟩, .new, some "rust"⟩) := by
    rfl
  have hmain : "" ≠ mainSource := by decide
  have hlong : "" ≠ longImport := by decide +kernel
  rw [ParserWrapper.parseFresh, ParserWrapper.parse, hlanguage] at hroot
  simp [ParserWrapper.parseText, sampleTreeSitter, hmain, hlong] at hroot

theorem sound_openedMain :
  (openedMain .new).Sound sampleTreeSitter
  := ⟨ParserWrapper.coherent_new sampleTreeSitter, rfl⟩

/-- Two updates of `main.rs`, applied in the order of their versions. -/
theorem converged_in_order :
  ((openedMain .new).updateAll sampleTreeSitter "main.rs" [⟨"", 2⟩, ⟨mainSource, 3⟩]).Converged
    sampleTreeSitter "main.rs" [⟨"", 2⟩, ⟨mainSource, 3⟩]
  := by
  let s : LspStore := ⟨openedMain .new, ⟨[], []⟩⟩
  let updates : List DocumentUpdate := [⟨"", 2⟩, ⟨mainSource, 3⟩]
  have hs : s.docs.Sound sampleTreeSitter := sound_openedMain
  have hget : s.docs.documents.get "main.rs" = some mainDocument := get_openedMain .new
  have hdistinct : (updates.map DocumentUpdate.version).Nodup := by decide
  have hgreater : ∀ u ∈ updates, mainDocument.version < u.version := by decide
  have hconverge := (updates_converge_iff hs hget hdistinct hgreater).2 updates (.refl _)
  apply (hconverge.1 (by simp [updates])).mpr
  constructor
  · rw [List.forall_mem_cons, List.forall_mem_singleton]
    exact ⟨textCuttable_empty, textCuttable_mainSource⟩
  · decide

/-- Applied the other way round, the update with version 2 overwrites the one with version 3. -/
theorem not_converged_out_of_order :
  (openedMain .new).Sound sampleTreeSitter
    ∧ (openedMain .new).documents.get "main.rs" = some mainDocument
    ∧ mainDocument.version = 1
    ∧ (∃ doc, ((openedMain .new).updateAll sampleTreeSitter "main.rs"
        [⟨mainSource, 3⟩, ⟨"", 2⟩]).documents.get "main.rs" = some doc ∧ doc.version = 2)
    ∧ ¬ ((openedMain .new).updateAll sampleTreeSitter "main.rs"
        [⟨mainSource, 3⟩, ⟨"", 2⟩]).Converged sampleTreeSitter "main.rs"
      [⟨mainSource, 3⟩, ⟨"", 2⟩]
  := by
  have hcut : ∀ w ∈ [DocumentUpdate.mk mainSource 3],
      TextCuttable sampleTreeSitter w.content mainDocument.language := by
    rw [List.forall_mem_singleton]
    apply textCuttable_mainSource
  obtain ⟨doc, hdoc, hversion⟩ := DocumentStore.version_updateAll_concat sound_openedMain
    (get_openedMain .new) hcut ⟨"", 2⟩
  refine ⟨sound_openedMain, get_openedMain .new, rfl, ⟨doc, hdoc, hversion⟩, ?_⟩
  rintro ⟨doc', u, hdoc', -, hhighest, -, hversion', -⟩
  obtain rfl := Option.some.inj (hdoc.symm.trans hdoc')
  have hle := hhighest ⟨mainSource, 3⟩ (by simp)
  rw [← hversion', hversion] at hle
  revert hle
  decide

end OrchestraRag
