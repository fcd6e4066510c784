import OrchestraRag.Index.Limits
import OrchestraRag.Memory.Changes
import OrchestraRag.Memory.History

/-!
# Reading a listing page by page

The memories of a project are listed page by page while other calls write.  A memory that is saved
meanwhile comes before those that are there and pushes them to later pages, so a memory may be read
twice; but as long as none is deleted, one that was there at the start is read once at least
(`pages_miss_nothing`), unless another one was created at the same time, for these may change their
places.
-/

namespace OrchestraRag

open Sql

/-! ### The tables -/

namespace MemoryTables

/-- Memories are added at most, after those of `tables`. -/
def Added (tables tables' : MemoryTables) : Prop :=
  tables.memories.map MemoryRow.origin <+: tables'.memories.map MemoryRow.origin

namespace Added

variable {tables tables' : MemoryTables}

theorem of_memories_eq (h : tables'.memories = tables.memories) :
  Added tables tables'
  := by
  rw [Added, h]

theorem insertMemory {row : MemoryRow} (h : tables.insertMemory row = .ok ((), tables')) :
  Added tables tables'
  := by
  obtain rfl := of_insertMemory h
  rw [Added, List.map_append]
  apply List.prefix_append

theorem updateMemory (codec : TagCodec) (now id content : String) (tags : List String)
    (tables : MemoryTables) :
  Added tables (tables.updateMemory codec now id content tags)
  := by
  have hsame : (tables.updateMemory codec now id content tags).memories.map MemoryRow.origin
      = tables.memories.map MemoryRow.origin := by
    rw [MemoryTables.updateMemory, List.map_map]
    apply List.map_congr_left
    intro row _
    rw [Function.comp_apply]
    split
    · rfl
    · rfl
  rw [Added, hsame]

end Added

/-! #### Rows of other tables -/

theorem memories_of_insertSession {row : SessionRow} {tables tables' : MemoryTables}
    (h : tables.insertSession row = .ok ((), tables')) :
  tables'.memories = tables.memories
  := by
  rw [insertSession] at h
  split at h
  · cases h
  · cases h
    rfl

theorem memories_of_insertObservation {row : ObservationRow} {tables tables' : MemoryTables}
    (h : tables.insertObservation row = .ok ((), tables')) :
  tables'.memories = tables.memories
  := by
  rw [insertObservation] at h
  split at h
  · cases h
  · split at h
    · cases h
    · cases h
      rfl

theorem memories_of_insertSummary {row : SummaryRow} {tables tables' : MemoryTables}
    (h : tables.insertSummary row = .ok ((), tables')) :
  tables'.memories = tables.memories
  := by
  rw [insertSummary] at h
  split at h
  · cases h
  · split at h
    · cases h
    · cases h
      rfl

/-- All statements but deletions add memories at most. -/
theorem followed_added :
  Followed Added
  := by
  constructor
  · intro tables
    apply List.prefix_rfl
  · intro tables tables' tables'' h h'
    apply List.IsPrefix.trans h h'
  · intro row tables tables' h
    apply Added.insertMemory h
  · apply Added.updateMemory
  · intro row tables tables' h
    apply Added.of_memories_eq (memories_of_insertSession h)
  · intro now sessionId tables
    apply Added.of_memories_eq rfl
  · intro arithmetic currentTimestamp sessionId tokens messages tools tables
    apply Added.of_memories_eq rfl
  · intro row tables tables' h
    apply Added.of_memories_eq (memories_of_insertObservation h)
  · intro row tables tables' h
    apply Added.of_memories_eq (memories_of_insertSummary h)
  · intro embeddings tables
    apply Added.of_memories_eq rfl

/-! #### The memories of a project -/

section Project

variable {project : String} {category : Option String} {tables tables' : MemoryTables}

/-- Whether a memory belongs to a listing is settled when it is saved. -/
theorem map_origin_projectMemories (project : String) (category : Option String)
    (tables : MemoryTables) :
  (tables.projectMemories project category).map MemoryRow.origin
    = (tables.memories.map MemoryRow.origin).filter (fun origin =>
      origin.2.1 = project ∧ ∀ c ∈ category, origin.2.2.1 = c)
  := by
  rw [List.filter_map]
  apply congrArg (List.map MemoryRow.origin)
  cases category with
  | none =>
      apply List.filter_congr
      intro row _
      rw [Function.comp_apply, decide_eq_decide]
      simp [MemoryRow.origin]
  | some category =>
      apply List.filter_congr
      intro row _
      rw [Function.comp_apply, decide_eq_decide]
      simp [MemoryRow.origin]

theorem Added.projectMemories (h : Added tables tables') (project : String)
    (category : Option String) :
  (tables.projectMemories project category).map MemoryRow.origin
    <+: (tables'.projectMemories project category).map MemoryRow.origin
  := by
  rw [map_origin_projectMemories, map_origin_projectMemories]
  apply List.IsPrefix.filter _ h

/-- A memory of a listing stays one. -/
theorem Added.exists_mem (h : Added tables tables') {row : MemoryRow}
    (hrow : row ∈ tables.projectMemories project category) :
  ∃ row' ∈ tables'.projectMemories project category, row'.origin = row.origin
  := List.mem_map.mp ((h.projectMemories project category).subset (List.mem_map_of_mem hrow))

/-- The number of memories of a listing that were created after some time. -/
def newer (project : String) (category : Option String) (time : String) (tables : MemoryTables) :
    ℕ :=
  (tables.projectMemories project category).countP (fun row => time < row.createdAt)

theorem Added.newer_le (h : Added tables tables') (time : String) :
  tables.newer project category time ≤ tables'.newer project category time
  := by
  have hnewer : ∀ tables : MemoryTables, tables.newer project category time
      = ((tables.projectMemories project category).map MemoryRow.origin).countP
        (fun origin => time < origin.2.2.2) := by
    intro tables
    rw [List.countP_map]
    rfl
  rw [hnewer, hnewer]
  apply (h.projectMemories project category).sublist.countP_le

/-- At the position that the newer memories leave to a memory, the listing has one that was created
at the same time. -/
theorem exists_getElem?_newer (scan : Scan MemoryRow) {row : MemoryRow}
    (hrow : row ∈ tables.projectMemories project category) :
  ∃ other, (scan.orderBy byCreatedAt (tables.projectMemories project category))[
      tables.newer project category row.createdAt]? = some other
    ∧ other.createdAt = row.createdAt
  := by
  have hcount : tables.newer project category row.createdAt
      = (scan.orderBy byCreatedAt (tables.projectMemories project category)).countP
        (fun other => row.createdAt < other.createdAt) :=
    (scan.perm_orderBy _ _).symm.countP_eq _
  have hordered : (scan.orderBy byCreatedAt (tables.projectMemories project category)).Pairwise
      (fun a b => b.createdAt ≤ a.createdAt) := by
    apply Scan.pairwise_orderBy_rel
    · intro a b c hab hbc
      apply String.le_trans hbc hab
    · intro a b
      apply String.le_total
  obtain ⟨other, hother, hnewer, hle⟩ := Paging.exists_getElem?_countP
    (p := fun other : MemoryRow => row.createdAt < other.createdAt) hordered
    (fun b c hbc hc => decide_eq_true (lt_of_lt_of_le (of_decide_eq_true hc) hbc))
    (Scan.mem_orderBy.mpr hrow) (decide_eq_false (lt_irrefl _))
  use other
  rw [hcount]
  use hother
  apply le_antisymm
  · apply not_lt.mp (of_decide_eq_false hnewer)
  · rcases hle with rfl | hle
    · apply le_refl
    · apply hle

end Project

end MemoryTables

/-! ### Pages -/

/-- The programs of the calls that write. -/
abbrev WritingPool : Type 1 :=
  Pool MemoryOp MemoryAns (Except String Unit) MemoryState

section Pages

variable (codec : TagCodec) (project : String) (category : Option String) (n : ℕ)

/-- The pages of `n` memories from the `k`-th on are read while programs run, until one is not
full.  Memories that were created at the same time come in any order, on each page anew. -/
inductive PagesRead : ℕ → WritingPool → List (List Memory) → WritingPool → Prop
  | last {k : ℕ} {c : WritingPool} {s : MemoryState} {page : List Memory} (scan : Scan MemoryRow) :
      (MemoryStorage.listMemoriesPaginated scan codec project category n (k * n)).Runs c.state
        (.ok page) s →
      page.length < n → PagesRead k c [page] ⟨s, c.threads⟩
  | next {k : ℕ} {c c' c'' : WritingPool} {s : MemoryState} {page : List Memory}
      {pages : List (List Memory)} (scan : Scan MemoryRow) :
      (MemoryStorage.listMemoriesPaginated scan codec project category n (k * n)).Runs c.state
        (.ok page) s →
      Pool.Run MemoryOp.Step Pool.anyStep ⟨s, c.threads⟩ c' → PagesRead (k + 1) c' pages c'' →
      PagesRead k c (page :: pages) c''

variable {codec project category n}

theorem asI64_of_lt {m : ℕ} (h : m < 2 ^ 63) :
  asI64 m = m
  := by
  rw [asI64_eq]
  split
  · omega
  · omega

/-- A page is read from the tables, which stay. -/
theorem of_runs_page {scan : Scan MemoryRow} {k : ℕ} {s s' : MemoryState} {page : List Memory}
    (hsize : (k + 1) * n < 2 ^ 63)
    (h : (MemoryStorage.listMemoriesPaginated scan codec project category n (k * n)).Runs s
      (.ok page) s') :
  s'.db.tables = s.db.tables
    ∧ page = (Paging.page (k * n) n (scan.orderBy MemoryTables.byCreatedAt
      (s.db.tables.projectMemories project category))).map (memoryFromRow codec)
  := by
  rw [Nat.succ_mul] at hsize
  have hrows := @pageRows_eq scan project category n (k * n) s.db.tables
    (asI64_of_lt (by omega)) (asI64_of_lt (by omega))
  rw [← hrows]
  obtain ⟨e | found, hon, -, hfound⟩ := MemoryM.runs_withConnection.mp h
  · cases hfound
  · obtain rfl := Except.ok.inj hfound
    obtain ⟨hpage, htables⟩ := Connection.query_on_eq_ok hon
    exact ⟨htables, hpage⟩

theorem page_subset {scan : Scan MemoryRow} {offset limit : ℕ} {tables : MemoryTables} :
  Paging.page offset limit (scan.orderBy MemoryTables.byCreatedAt
      (tables.projectMemories project category))
    ⊆ tables.projectMemories project category
  := by
  intro other hother
  apply Scan.mem_orderBy.mp (List.mem_of_mem_drop (List.mem_of_mem_take hother))

/-- What one page shows of a memory that `k` pages of newer ones come before: one that was created
at the same time, or so many newer ones that they fill the page. -/
theorem page_shows {scan : Scan MemoryRow} {k : ℕ} {tables : MemoryTables} {row : MemoryRow}
    (hrow : row ∈ tables.projectMemories project category)
    (hrank : k * n ≤ tables.newer project category row.createdAt) :
  (∃ other ∈ Paging.page (k * n) n (scan.orderBy MemoryTables.byCreatedAt
      (tables.projectMemories project category)), other.createdAt = row.createdAt)
    ∨ n ≤ (Paging.page (k * n) n (scan.orderBy MemoryTables.byCreatedAt
        (tables.projectMemories project category))).length
      ∧ (k + 1) * n ≤ tables.newer project category row.createdAt
  := by
  obtain ⟨other, hother, htime⟩ := MemoryTables.exists_getElem?_newer scan hrow
  rcases Nat.lt_or_ge (tables.newer project category row.createdAt) (k * n + n) with hin | hafter
  · apply Or.inl
    use other, Paging.mem_page_of_getElem? hother hrank hin
  · apply Or.inr
    rw [Nat.succ_mul]
    constructor
    · apply Nat.le_of_not_lt
      intro hshort
      obtain ⟨hlt, -⟩ := List.getElem?_eq_some_iff.mp hother
      apply Nat.not_lt.mpr hafter (Paging.lt_of_length_page_lt hlt hshort)
    · apply hafter

/-- Between two pages memories are added at most. -/
theorem added_of_run {s : MemoryState} {c c' : WritingPool}
    (hthreads : ∀ t ∈ c.threads, t.Uses (MemoryOp.Follows MemoryTables.Added))
    (htables : s.db.tables = c.state.db.tables)
    (hrun : Pool.Run MemoryOp.Step Pool.anyStep ⟨s, c.threads⟩ c') :
  c.state.db.tables.Added c'.state.db.tables
    ∧ ∀ t ∈ c'.threads, t.Uses (MemoryOp.Follows MemoryTables.Added)
  := by
  rw [← htables]
  apply follows_of_run MemoryTables.followed_added hrun hthreads

/-- While pages are read, memories are added at most. -/
theorem PagesRead.added {k : ℕ} {c c' : WritingPool} {pages : List (List Memory)}
    (h : PagesRead codec project category n k c pages c')
    (hthreads : ∀ t ∈ c.threads, t.Uses (MemoryOp.Follows MemoryTables.Added))
    (hsize : (k + pages.length) * n < 2 ^ 63) :
  c.state.db.tables.Added c'.state.db.tables
  := by
  induction h with
  | last scan hread _ =>
      rw [(of_runs_page hsize hread).1]
      apply MemoryTables.followed_added.refl
  | @next k c c' c'' s page pages scan hread hrun _ ih =>
      rw [List.length_cons, ← Nat.add_assoc, Nat.add_right_comm] at hsize
      have hfirst : (k + 1) * n < 2 ^ 63 :=
        lt_of_le_of_lt (Nat.mul_le_mul_right n (Nat.le_add_right _ _)) hsize
      obtain ⟨hadded, huses⟩ := added_of_run hthreads (of_runs_page hfirst hread).1 hrun
      apply hadded.trans (ih huses hsize)

/-- A memory that was created at the same time as one that is alone with its time is that one. -/
theorem exists_mem_page {tables tables' : MemoryTables} {rows : List MemoryRow} {row : MemoryRow}
    (hadded : tables.Added tables') (hrows : rows ⊆ tables.projectMemories project category)
    (honly : ∀ other ∈ tables'.projectMemories project category,
      other.createdAt = row.createdAt → other.id = row.id)
    (h : ∃ other ∈ rows, other.createdAt = row.createdAt) :
  ∃ mem ∈ rows.map (memoryFromRow codec), mem.id = row.id
  := by
  obtain ⟨other, hother, htime⟩ := h
  use memoryFromRow codec other, List.mem_map_of_mem hother
  obtain ⟨later, hlater, horigin⟩ := hadded.exists_mem (hrows hother)
  have hid : later.id = other.id := congrArg Prod.fst horigin
  have hcreated : later.createdAt = other.createdAt :=
    congrArg (fun origin => origin.2.2.2) horigin
  apply hid.symm.trans (honly later hlater (hcreated.trans htime))

/-- A memory that `k` pages of newer ones come before is on one of the pages from the `k`-th on. -/
theorem PagesRead.exists_mem {k : ℕ} {c c' : WritingPool} {pages : List (List Memory)}
    (h : PagesRead codec project category n k c pages c')
    (hthreads : ∀ t ∈ c.threads, t.Uses (MemoryOp.Follows MemoryTables.Added))
    (hsize : (k + pages.length) * n < 2 ^ 63) {row : MemoryRow}
    (hrow : row ∈ c.state.db.tables.projectMemories project category)
    (hrank : k * n ≤ c.state.db.tables.newer project category row.createdAt)
    (honly : ∀ other ∈ c'.state.db.tables.projectMemories project category,
      other.createdAt = row.createdAt → other.id = row.id) :
  ∃ page ∈ pages, ∃ mem ∈ page, mem.id = row.id
  := by
  have hadded := h.added hthreads hsize
  induction h generalizing row with
  | last scan hread hshort =>
      obtain ⟨-, rfl⟩ := of_runs_page hsize hread
      refine ⟨_, List.mem_cons_self, ?_⟩
      rcases page_shows hrow hrank with hshown | ⟨hfull, -⟩
      · apply exists_mem_page hadded page_subset honly hshown
      · rw [List.length_map] at hshort
        cases Nat.not_le.mpr hshort hfull
  | @next k c c' c'' s page pages scan hread hrun hrest ih =>
      rw [List.length_cons, ← Nat.add_assoc, Nat.add_right_comm] at hsize
      have hfirst : (k + 1) * n < 2 ^ 63 :=
        lt_of_le_of_lt (Nat.mul_le_mul_right n (Nat.le_add_right _ _)) hsize
      obtain ⟨htables, rfl⟩ := of_runs_page hfirst hread
      rcases page_shows hrow hrank with hshown | ⟨-, hrank⟩
      · refine ⟨_, List.mem_cons_self, ?_⟩
        apply exists_mem_page hadded page_subset honly hshown
      · -- the newer memories are still there when the next page is read
        obtain ⟨hnext, huses⟩ := added_of_run hthreads htables hrun
        obtain ⟨row', hrow', horigin⟩ := hnext.exists_mem hrow
        have hid : row'.id = row.id := congrArg Prod.fst horigin
        have hcreated : row'.createdAt = row.createdAt :=
          congrArg (fun origin => origin.2.2.2) horigin
        rw [← hcreated] at hrank honly
        rw [← hid] at honly ⊢
        obtain ⟨page, hmem, hfound⟩ := ih huses hsize hrow' (hrank.trans (hnext.newer_le _)) honly
          (hrest.added huses hsize)
        use page, List.mem_cons_of_mem _ hmem

end Pages

/-- Reading a listing page by page misses no memory that was there at the start and is the only one
of its time, whatever is saved and changed meanwhile, as long as no memory is deleted; some of the
calls may have begun before. -/
theorem pages_miss_nothing {F : Type} [SingleFloat F] {codec : TagCodec}
    {calls : List (WritingCall F)} {s : MemoryState} {c c' : WritingPool} {project : String}
    {category : Option String} {n : ℕ} {pages : List (List Memory)}
    (hcalls : ∀ call ∈ calls, ¬ call.Deletes)
    (hbegun : Pool.Run MemoryOp.Step Pool.anyStep
      ⟨s, calls.map (fun call => (call.program codec).run)⟩ c)
    (hsize : pages.length * n < 2 ^ 63) (h : PagesRead codec project category n 0 c pages c')
    {row : MemoryRow} (hrow : row ∈ c.state.db.tables.projectMemories project category)
    (honly : ∀ other ∈ c'.state.db.tables.projectMemories project category,
      other.createdAt = row.createdAt → other.id = row.id) :
  ∃ page ∈ pages, ∃ mem ∈ page, mem.id = row.id
  := by
  have hthreads : ∀ t ∈ calls.map (fun call => (call.program codec).run),
      t.Uses (MemoryOp.Follows MemoryTables.Added) := by
    intro t ht
    obtain ⟨call, hcall, rfl⟩ := List.mem_map.mp ht
    apply call.follows MemoryTables.followed_added codec
    intro hdeletes
    cases hcalls call hcall hdeletes
  obtain ⟨-, hlater⟩ := follows_of_run MemoryTables.followed_added hbegun hthreads
  apply h.exists_mem hlater _ hrow _ honly
  · rw [Nat.zero_add]
    apply hsize
  · rw [Nat.zero_mul]
    apply Nat.zero_le

/-! ### A note saved while its project is listed -/

/-- A note saved after the first one. -/
def laterRow : MemoryRow :=
  { noteRow "m2" "alpha" "second" with createdAt := "1", updatedAt := "1" }

/-- The second note is saved. -/
def savingLater : List (WritingCall F32) :=
  [.saveMemory "alpha" "notes" "second" []]

theorem runs_page {s : MemoryState} (hs : s.db.Reliable) {rows : List MemoryRow}
    (hrows : Scan.reversed.orderBy MemoryTables.byCreatedAt
      (s.db.tables.projectMemories "alpha" none) = rows) {k : ℕ} (hk : k < 2 ^ 62) :
  (MemoryStorage.listMemoriesPaginated Scan.reversed noTags "alpha" none 1 (k * 1)).Runs s
    (.ok ((Paging.page (k * 1) 1 rows).map (memoryFromRow noTags))) s
  := by
  have hreads := MemoryStorage.reads_listMemoriesPaginated Scan.reversed noTags hs "alpha" none 1
    (k * 1)
  rw [pageRows_eq (asI64_of_lt (by omega)) (asI64_of_lt (by omega)), hrows] at hreads
  apply (hreads _ _).mpr ⟨rfl, rfl⟩

/-- The first note is read twice, as the second one, of which the call had begun before, is saved
after it was read. -/
theorem pages_while_saving :
  ∃ c c' : WritingPool, ∃ pages : List (List Memory),
    Pool.Run MemoryOp.Step Pool.anyStep ⟨noteState [noteRow "m1" "alpha" "first"] [] ["m1"],
      savingLater.map (fun call => (call.program noTags).run)⟩ c
    ∧ c.state = noteState [noteRow "m1" "alpha" "first"] [] ["m2", "m1"]
    ∧ PagesRead noTags "alpha" none 1 0 c pages c'
    ∧ pages.map (List.map Memory.id) = [["m1"], ["m1"], []]
    ∧ ∃ page ∈ pages, ∃ mem ∈ page, mem.id = "m1"
  := by
  let before := noteState [noteRow "m1" "alpha" "first"] [] ["m2", "m1"]
  let after := noteState [noteRow "m1" "alpha" "first", laterRow] [] ["m2", "m1"]
  have hnew : "m2" ∉ ["m1"] := by decide
  have hinsert : MemoryOp.Step (.connection (Connection.statement
        (MemoryTables.insertMemory laterRow)))
      before (Except.ok () : Except String Unit) after := ⟨rfl, rfl⟩
  have hstart : Pool.Run MemoryOp.Step Pool.anyStep
      ⟨noteState [noteRow "m1" "alpha" "first"] [] ["m1"],
        savingLater.map (fun call => (call.program noTags).run)⟩
      ⟨noteState [noteRow "m1" "alpha" "first"] [] ["m1"],
        savingLater.map (fun call => (call.program noTags).run)⟩ := Pool.Run.refl
  have hbegun := hstart.next 0 _ rfl trivial (step_uuid "m2" hnew) rfl
  replace hbegun := hbegun.next 0 _ rfl trivial (step_now "1") rfl
  let saving : MemoryM Unit := discard (do
    MemoryM.withConnection (Connection.statement (MemoryTables.insertMemory laterRow))
    pure "m2")
  have hsaving : Pool.Run MemoryOp.Step Pool.anyStep ⟨before, [saving.run]⟩
      ⟨before, [saving.run]⟩ := Pool.Run.refl
  have hrun := hsaving.next 0 _ rfl trivial hinsert rfl
  have hbefore : Scan.reversed.orderBy MemoryTables.byCreatedAt
      (before.db.tables.projectMemories "alpha" none) = [noteRow "m1" "alpha" "first"] :=
    List.mergeSort_singleton _
  have hafter : Scan.reversed.orderBy MemoryTables.byCreatedAt
      (after.db.tables.projectMemories "alpha" none) = [laterRow, noteRow "m1" "alpha" "first"] :=
    List.mergeSort_of_pairwise (List.pairwise_pair.mpr (by decide))
  have hlast : PagesRead noTags "alpha" none 1 2 ⟨after, [.ret (.ok ())]⟩ [[]]
      ⟨after, [.ret (.ok ())]⟩ :=
    PagesRead.last Scan.reversed (@runs_page after rfl _ hafter 2 (by decide)) (by decide)
  have hsecond := PagesRead.next (c := ⟨after, [.ret (.ok ())]⟩) Scan.reversed
    (@runs_page after rfl _ hafter 1 (by decide)) Pool.Run.refl hlast
  have hpages := PagesRead.next (c := ⟨before, [saving.run]⟩) Scan.reversed
    (@runs_page before rfl _ hbefore 0 (by decide)) hrun hsecond
  have hrow : noteRow "m1" "alpha" "first" ∈ before.db.tables.projectMemories "alpha" none :=
    List.mem_cons_self
  have honly : ∀ other ∈ after.db.tables.projectMemories "alpha" none,
      other.createdAt = "" → other.id = "m1" := by
    decide
  refine ⟨_, _, _, hbegun, rfl, hpages, rfl, ?_⟩
  apply @pages_miss_nothing F32 _ noTags savingLater _ _ _ "alpha" none 1 _ _ hbegun (by decide)
    hpages _ hrow honly
  intro call hcall
  obtain rfl := List.mem_singleton.mp hcall
  exact id

end OrchestraRag
