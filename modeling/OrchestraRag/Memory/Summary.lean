import Mathlib.Algebra.BigOperators.Group.List.Lemmas
import OrchestraRag.Library.Newest
import OrchestraRag.Memory.Interference

/-!
# Summaries of a project

A summary of a project is put together from four queries, between which other calls save: it need
not be what the tables hold at any one time.  As long as no memory is deleted each of its numbers
lies between the one at the start and the one at the end, and the memories and observations that it
shows are the newest ones, but for those that are saved meanwhile (`summary_between`).
-/

namespace OrchestraRag

open Sql

/-! ### The tables -/

/-- Memories, sessions and observations are added at most. -/
structure MemoryTables.Extended (tables tables' : MemoryTables) : Prop where
  memories : tables.Added tables'
  sessions : tables.sessions.map SessionRow.origin <+: tables'.sessions.map SessionRow.origin
  observations : tables.observations <+: tables'.observations

/-- What stays of a memory that was read. -/
def Memory.origin (mem : Memory) : String × String × String × String :=
  (mem.id, mem.project, mem.category, mem.createdAt)

namespace MemoryTables

variable {tables tables' tables'' : MemoryTables}

theorem Extended.trans (h : Extended tables tables') (h' : Extended tables' tables'') :
  Extended tables tables''
  where
    memories := List.IsPrefix.trans h.memories h'.memories
    sessions := h.sessions.trans h'.sessions
    observations := h.observations.trans h'.observations

theorem map_origin_of_becomes {sessions later : List SessionRow}
    (h : List.Forall₂ SessionRow.Becomes sessions later) :
  sessions.map SessionRow.origin = later.map SessionRow.origin
  := by
  induction h with
  | nil => rfl
  | cons hfirst _ ih => rw [List.map_cons, List.map_cons, hfirst.origin, ih]

theorem followed_extended :
  Followed Extended
  := by
  apply followed_of_retained
  · intro tables tables' hretained hadded
    obtain ⟨later, hbecomes, hinitial⟩ := hretained.sessions
    use hadded
    · rw [map_origin_of_becomes hbecomes]
      apply hinitial.map
    · apply hretained.observations
  · intro tables tables' tables'' h h'
    apply h.trans h'

section Project

variable (project : String)

/-- The origins of the memories of a project. -/
def origins (tables : MemoryTables) : List (String × String × String × String) :=
  (tables.projectMemories project none).map MemoryRow.origin

theorem Extended.origins (h : Extended tables tables') :
  tables.origins project <+: tables'.origins project
  := h.memories.projectMemories project none

theorem Extended.length_projectMemories_le (h : Extended tables tables')
    (category : Option String) :
  (tables.projectMemories project category).length
    ≤ (tables'.projectMemories project category).length
  := by
  have hinitial := (h.memories.projectMemories project category).length_le
  rw [List.length_map, List.length_map] at hinitial
  apply hinitial

/-- Whether a session belongs to a project is settled when it starts. -/
theorem Extended.projectSessions (h : Extended tables tables') :
  (tables.projectSessions project).map SessionRow.origin
    <+: (tables'.projectSessions project).map SessionRow.origin
  := by
  have hfilter : ∀ tables : MemoryTables, (tables.projectSessions project).map SessionRow.origin
      = (tables.sessions.map SessionRow.origin).filter (fun origin => origin.2.1 = project) := by
    intro tables
    rw [List.filter_map]
    rfl
  rw [hfilter, hfilter]
  apply h.sessions.filter

/-- The first sessions of a project stay the first ones, with their starts. -/
theorem Extended.starts_take (h : Extended tables tables') {n : ℕ}
    (hn : n ≤ (tables.projectSessions project).length) :
  ((tables.projectSessions project).take n).map SessionRow.startedAt
    = ((tables'.projectSessions project).take n).map SessionRow.startedAt
  := by
  have hstarts : ∀ sessions : List SessionRow, (sessions.take n).map SessionRow.startedAt
      = ((sessions.map SessionRow.origin).take n).map (fun origin => origin.2.2.1) := by
    intro sessions
    rw [← List.map_take, List.map_map]
    rfl
  obtain ⟨later, hlater⟩ := h.projectSessions project
  rw [hstarts, hstarts, ← hlater, List.take_append_of_le_length]
  rw [List.length_map]
  apply hn

theorem Extended.projectObservations (h : Extended tables tables') :
  tables.projectObservations project none <+: tables'.projectObservations project none
  := h.observations.filter _

end Project

end MemoryTables

/-! ### What a summary says -/

/-- The answer of `get_project_summary`. -/
def MemoryTools.summaryAnswer (categories : List (String × ℕ)) (recent : List Memory)
    (sessions : ℕ × Option String) (observations : List ObservationRow) : Json :=
  .object (SortedMap.collect
    [("memory_stats", .object (SortedMap.collect
        [("total", countToJson (categories.map Prod.snd).sum),
          ("categories", .object (SortedMap.collect
            (categories.map (fun (category, n) => (category, countToJson n)))))])),
      ("session_stats", .object (SortedMap.collect
        [("total", countToJson sessions.1), ("last_session", optionToJson sessions.2)])),
      ("recent_memories", .array (recent.map Memory.toSummaryJson)),
      ("recent_observations", .array (observations.map ObservationRow.toJson))])

section Says

variable (before after : MemoryTables) (project : String)

/-- Each category of a project is counted once, between `before` and `after`. -/
structure Counted (categories : List (String × ℕ)) : Prop where
  sorted : (categories.map Prod.fst).Pairwise (· < ·)
  le_count : ∀ category, (before.projectMemories project (some category)).length
    ≤ (categories.lookup category).getD 0
  count_le : ∀ category, (categories.lookup category).getD 0
    ≤ (after.projectMemories project (some category)).length
  le_total : (before.projectMemories project none).length ≤ (categories.map Prod.snd).sum
  total_le : (categories.map Prod.snd).sum ≤ (after.projectMemories project none).length

/-- The sessions of a project are counted between `before` and `after`, and the last start is the
latest of the sessions that were counted, which are the first ones of `after`; where statements
fail, it may be missing. -/
structure SessionsCounted (fails : Prop) (sessions : ℕ × Option String) : Prop where
  le_count : (before.projectSessions project).length ≤ sessions.1
  count_le : sessions.1 ≤ (after.projectSessions project).length
  last : sessions.2
      = (((after.projectSessions project).take sessions.1).map SessionRow.startedAt).max?
    ∨ fails ∧ sessions.2 = none

/-- The newest memories of a project. -/
def NewestMemories (recent : List Memory) : Prop :=
  Newest (fun origin => origin.2.2.2) 5 (before.origins project) (after.origins project)
    (recent.map Memory.origin)

/-- The newest observations of a project. -/
def NewestObservations (observations : List ObservationRow) : Prop :=
  Newest ObservationRow.timestamp 10 (before.projectObservations project none)
    (after.projectObservations project none) observations

/-- What a summary says of a project, of which `before` was there when the calls began and `after`
is there now; `fails` says that statements may fail. -/
structure Summarised (fails : Prop) (categories : List (String × ℕ)) (recent : List Memory)
    (sessions : ℕ × Option String) (observations : List ObservationRow) : Prop where
  counted : Counted before after project categories
  newest : NewestMemories before after project recent
  shown : min 5 (categories.map Prod.snd).sum ≤ recent.length
  started : SessionsCounted before after project fails sessions
  observed : NewestObservations before after project observations

end Says

/-- The answer of a call is a summary of the project it asks for. -/
def AnswersSummary (before after : MemoryTables) (fails : Prop) (args answer : Json) : Prop :=
  ∃ project categories recent sessions observations,
    (args.index "project").asStr = some project
    ∧ answer = MemoryTools.summaryAnswer categories recent sessions observations
    ∧ Summarised before after project fails categories recent sessions observations

section Later

variable {before after after' : MemoryTables} {project : String} {fails : Prop}

theorem Counted.later {categories : List (String × ℕ)}
    (h : Counted before after project categories) (hafter : after.Extended after') :
  Counted before after' project categories
  where
    sorted := h.sorted
    le_count := h.le_count
    count_le := fun category =>
      (h.count_le category).trans (hafter.length_projectMemories_le project (some category))
    le_total := h.le_total
    total_le := h.total_le.trans (hafter.length_projectMemories_le project none)

theorem SessionsCounted.later {sessions : ℕ × Option String}
    (h : SessionsCounted before after project fails sessions) (hafter : after.Extended after') :
  SessionsCounted before after' project fails sessions
  := by
  have hlength := (hafter.projectSessions project).length_le
  rw [List.length_map, List.length_map] at hlength
  use h.le_count
  · apply h.count_le.trans hlength
  · -- the sessions that were counted are still the first ones
    rw [← hafter.starts_take project h.count_le]
    apply h.last

theorem NewestMemories.later {recent : List Memory}
    (h : NewestMemories before after project recent) (hafter : after.Extended after') :
  NewestMemories before after' project recent
  := Newest.later h (hafter.origins project).subset

theorem NewestObservations.later {observations : List ObservationRow}
    (h : NewestObservations before after project observations) (hafter : after.Extended after') :
  NewestObservations before after' project observations
  := Newest.later h (hafter.projectObservations project).subset

theorem Summarised.later {categories : List (String × ℕ)} {recent : List Memory}
    {sessions : ℕ × Option String} {observations : List ObservationRow}
    (h : Summarised before after project fails categories recent sessions observations)
    (hafter : after.Extended after') :
  Summarised before after' project fails categories recent sessions observations
  where
    counted := h.counted.later hafter
    newest := h.newest.later hafter
    shown := h.shown
    started := h.started.later hafter
    observed := h.observed.later hafter

theorem AnswersSummary.later {args answer : Json}
    (h : AnswersSummary before after fails args answer) (hafter : after.Extended after') :
  AnswersSummary before after' fails args answer
  := by
  obtain ⟨project, categories, recent, sessions, observations, hproject, hanswer, hsays⟩ := h
  exact ⟨project, categories, recent, sessions, observations, hproject, hanswer,
    hsays.later hafter⟩

end Later

/-! ### What the queries find -/

section Queries

variable {before tables : MemoryTables} (project : String)

theorem count_category (category : String) :
  ((tables.projectMemories project none).map MemoryRow.category).count category
    = (tables.projectMemories project (some category)).length
  := by
  rw [List.count_eq_countP, List.countP_map, List.countP_eq_length_filter]
  apply congrArg List.length
  rw [MemoryTables.projectMemories, MemoryTables.projectMemories, List.filter_filter]
  apply List.filter_congr
  intro row _
  rw [Function.comp_apply, Bool.and_comm, Bool.decide_and]
  rfl

theorem lookup_categoryCounts (category : String) :
  ((tables.categoryCounts project).lookup category).getD 0
    = (tables.projectMemories project (some category)).length
  := by
  rw [← count_category project category, MemoryTables.categoryCounts]
  by_cases hmem : category ∈ (tables.projectMemories project none).map MemoryRow.category
  · rw [List.lookup_graph _ (List.mem_mergeSort.mpr (List.mem_dedup.mpr hmem)), Option.getD_some]
  · rw [List.count_eq_zero.mpr hmem, List.lookup_eq_none_iff.mpr, Option.getD_none]
    intro counted hcounted
    obtain ⟨other, hother, rfl⟩ := List.mem_map.mp hcounted
    rw [bne_iff_ne]
    rintro rfl
    apply hmem (List.mem_dedup.mp (List.mem_mergeSort.mp hother))

theorem sum_categoryCounts :
  ((tables.categoryCounts project).map Prod.snd).sum
    = (tables.projectMemories project none).length
  := by
  rw [MemoryTables.categoryCounts, List.map_map]
  have hperm := List.mergeSort_perm
    ((tables.projectMemories project none).map MemoryRow.category).dedup (fun a b => a ≤ b)
  rw [(hperm.map _).sum_eq]
  have hsum := List.sum_map_count_dedup_eq_length
    ((tables.projectMemories project none).map MemoryRow.category)
  rw [List.length_map] at hsum
  apply hsum

theorem sorted_categoryCounts :
  ((tables.categoryCounts project).map Prod.fst).Pairwise (· < ·)
  := by
  let categories := (tables.projectMemories project none).map MemoryRow.category
  have hkeys : (tables.categoryCounts project).map Prod.fst
      = categories.dedup.mergeSort (fun a b => a ≤ b) := by
    rw [MemoryTables.categoryCounts, List.map_map]
    apply List.map_id
  have hsorted : (categories.dedup.mergeSort (fun a b => a ≤ b)).Pairwise (· ≤ ·) :=
    List.pairwise_mergeSort' (· ≤ ·) _
  have hnodup : (categories.dedup.mergeSort (fun a b => a ≤ b)).Nodup :=
    (List.mergeSort_perm _ _).nodup_iff.mpr (List.nodup_dedup categories)
  rw [hkeys]
  apply (hsorted.and hnodup).imp
  rintro a b ⟨hle, hne⟩
  apply lt_of_le_of_ne hle hne

theorem counted_categoryCounts (h : before.Extended tables) :
  Counted before tables project (tables.categoryCounts project)
  := by
  constructor
  · apply sorted_categoryCounts
  · intro category
    rw [lookup_categoryCounts]
    apply h.length_projectMemories_le
  · intro category
    rw [lookup_categoryCounts]
  · rw [sum_categoryCounts]
    apply h.length_projectMemories_le
  · rw [sum_categoryCounts]

theorem newestMemories_pageRows (scan : Scan MemoryRow) (codec : TagCodec)
    (h : before.Extended tables) :
  NewestMemories before tables project
    ((tables.pageRows scan project none 5 0).map (memoryFromRow codec))
  := by
  let rows := scan.orderBy MemoryTables.byCreatedAt (tables.projectMemories project none)
  have horigins : ((tables.pageRows scan project none 5 0).map (memoryFromRow codec)).map
      Memory.origin = (rows.map MemoryRow.origin).take 5 := by
    rw [List.map_map, ← List.map_take]
    rfl
  have hperm : (rows.map MemoryRow.origin).Perm (tables.origins project) :=
    (scan.perm_orderBy _ _).map _
  have hordered : rows.Pairwise (fun a b => b.createdAt ≤ a.createdAt) := by
    apply Scan.pairwise_orderBy_rel
    · intro a b c hab hbc
      apply String.le_trans hbc hab
    · intro a b
      apply String.le_total
  rw [NewestMemories, horigins]
  apply newest_take
  · apply List.pairwise_map.mpr hordered
  · apply (h.origins project).sublist.subperm.trans hperm.symm.subperm
  · apply hperm.subset

theorem newestObservations_recentObservations (scan : Scan ObservationRow)
    (h : before.Extended tables) :
  NewestObservations before tables project (tables.recentObservations scan project none 10)
  := by
  have hperm := scan.perm_orderBy MemoryTables.byTimestamp (tables.projectObservations project none)
  apply newest_take
  · apply Scan.pairwise_orderBy_rel
    · intro a b c hab hbc
      apply String.le_trans hbc hab
    · intro a b
      apply String.le_total
  · apply (h.projectObservations project).sublist.subperm.trans hperm.symm.subperm
  · apply hperm.subset

theorem sessionsCounted_of_lastStart {sessions : ℕ × Option String} {fails : Prop}
    (h : before.Extended tables) (hcount : sessions.1 = (tables.projectSessions project).length)
    (hlast : sessions.2 = tables.lastStart project ∨ fails ∧ sessions.2 = none) :
  SessionsCounted before tables project fails sessions
  := by
  constructor
  · have hlength := (h.projectSessions project).length_le
    rw [List.length_map, List.length_map] at hlength
    rw [hcount]
    apply hlength
  · rw [hcount]
  · rw [hcount, List.take_length]
    apply hlast

end Queries

/-! ### The tool -/

namespace MemoryM

open MemoryTables

variable {before : MemoryTables} {s : MemoryState}

/-- The two statements of `session_stats` run on the same tables; where the second one fails there
is no last start. -/
theorem ensuring_sessionStats (project : String) (h : before.Extended s.db.tables) {fails : Prop}
    (hfails : ¬ s.db.Reliable → fails) :
  Ensuring Extended
    (fun sessions db => s.db.tables.Extended db.tables
      ∧ SessionsCounted before db.tables project fails sessions) s
    (SessionManager.sessionStats project)
  := by
  apply ensuring_withConnection
  intro db db' sessions hdb hon
  obtain ⟨count, db₁, hcount, hon⟩ := Connection.bind_on_eq_ok.mp hon
  obtain ⟨rfl, htables⟩ := Connection.query_on_eq_ok hcount
  obtain ⟨last, db₂, hlast, hon⟩ := Connection.bind_on_eq_ok.mp hon
  obtain ⟨hsessions, rfl⟩ := Prod.mk.inj hon
  rw [Connection.attempt_on] at hlast
  obtain ⟨hresult, rfl⟩ := Prod.mk.inj hlast
  have hmaintains := Connection.maintains_query (P := fun tables => tables = db₁.tables)
    (f := fun tables : MemoryTables => tables.lastStart project) db₁
  rw [hmaintains.1 rfl, htables]
  use hdb.tables
  apply sessionsCounted_of_lastStart project (h.trans hdb.tables)
  · rw [← Except.ok.inj hsessions]
  · rw [← Except.ok.inj hsessions, ← Except.ok.inj hresult]
    cases hfault : db₁.nextFault with
    | none =>
        left
        rw [Connection.query_on_ok hfault, htables]
        rfl
    | some e =>
        right
        have hreliable : ¬ s.db.Reliable := by
          intro hreliable
          have hafter := Connection.reliable_of_query hcount (hdb.reliable hreliable)
          cases hfault.symm.trans hafter.nextFault
        use hfails hreliable
        rw [Connection.query_on_error hfault]
        rfl

/-- What was read first still holds when the next part is read. -/
theorem ensuring_getProjectSummary {F : Type} [SingleFloat F] (orders : Orders F)
    (codec : TagCodec) (args : Json) (s : MemoryState) :
  Ensuring Extended
    (fun answer db => AnswersSummary s.db.tables db.tables (¬ s.db.Reliable) args answer) s
    (MemoryTools.getProjectSummary orders codec args)
  := by
  apply ensuring_requiredStr_bind
  intro project hproject
  have hcount : Ensuring Extended (fun categories db => Moved Extended s.db db
      ∧ Counted s.db.tables db.tables project categories) s
      (MemoryStorage.countByCategory project) := by
    apply ensuring_query
    intro db hdb
    exact ⟨hdb, counted_categoryCounts project hdb.tables⟩
  apply (hcount.named _).bind
  rintro categories s₁ ⟨hs₁, hcounted⟩
  have hrecent : Ensuring Extended (fun recent db => Moved Extended s₁.db db
      ∧ ∀ before : MemoryTables, before.Extended s₁.db.tables →
        NewestMemories before db.tables project recent) s₁
      (MemoryStorage.recentMemories orders.memories codec project 5) := by
    apply ensuring_query
    intro db hdb
    use hdb
    intro before hbefore
    apply newestMemories_pageRows project orders.memories codec (hbefore.trans hdb.tables)
  apply (hrecent.named _).bind
  rintro recent s₂ ⟨hs₂, hnewest⟩
  have hmoved := hs₁.trans followed_extended hs₂
  have hstats := ensuring_sessionStats project hmoved.tables (mt hmoved.reliable)
  apply (hstats.named _).bind
  rintro ⟨sessionCount, lastSession⟩ s₃ ⟨hs₃, hstarted⟩
  have hshown : min 5 (categories.map Prod.snd).sum ≤ recent.length := by
    have hlength := (hnewest s₁.db.tables (followed_extended.refl _)).le_length
    rw [List.length_map, MemoryTables.origins, List.length_map] at hlength
    apply le_trans (min_le_min_left 5 hcounted.total_le) hlength
  apply Ensuring.answer
  apply ensuring_query
  intro db hdb
  refine ⟨project, categories, recent, (sessionCount, lastSession), _, hproject, rfl, ?_⟩
  constructor
  · apply ((hcounted.later hs₂.tables).later hs₃).later hdb.tables
  · apply ((hnewest _ hs₁.tables).later hs₃).later hdb.tables
  · apply hshown
  · apply hstarted.later hdb.tables
  · apply newestObservations_recentObservations
    apply (hmoved.tables.trans hs₃).trans hdb.tables

end MemoryM

/-! ### Runs -/

/-- Whatever tools run at once but `delete_memory`, and whichever of their statements fail, a
summary that was answered says of its project what the tables held between the start and the end. -/
theorem summary_between {F : Type} [SingleFloat F] {sorting : SortBy} {orders : Orders F}
    {codec : TagCodec} {calls : List MemoryCall} {s : MemoryState} {c : MemoryPool}
    (hcalls : ∀ args, MemoryCall.write .deleteMemory args ∉ calls)
    (h : Pool.Run MemoryOp.Step Pool.anyStep
      ⟨s, calls.map (MemoryCall.program sorting orders codec)⟩ c)
    {i : ℕ} {args answer : Json} (hcall : calls[i]? = some (.read .getProjectSummary args))
    (hreturned : c.threads[i]? = some (.ret (.ok answer))) :
  AnswersSummary s.db.tables c.state.db.tables (¬ s.db.Reliable) args answer
  := by
  let Q : MemoryCall → Json → Db MemoryTables → Prop := fun call answer db =>
    ∀ args, call = .read .getProjectSummary args →
      AnswersSummary s.db.tables db.tables (¬ s.db.Reliable) args answer
  apply MemoryCall.of_run MemoryTables.followed_extended _ (Q := Q) _ _ h hcall hreturned args rfl
  · intro args hmem
    cases hcalls args hmem
  · intro call answer db db' hmoved hQ args hsummary
    apply (hQ args hsummary).later hmoved.tables
  · intro call _
    by_cases hsummary : ∃ args, call = .read .getProjectSummary args
    · obtain ⟨args, rfl⟩ := hsummary
      apply (MemoryM.ensuring_getProjectSummary orders codec args s).mono
      rintro r s' hr answer hanswer args' ⟨⟩
      apply hr answer hanswer
    · apply Program.ensures_of_forall
      intro r s' answer _ args hread
      cases hsummary ⟨args, hread⟩

/-! ### A note and a session of a project that is summed up -/

/-- A note is saved, a session is started, and their project is summed up. -/
def saveStartAndSum : List MemoryCall :=
  [.write .saveMemory (noteArgs "alpha" "first"),
    .write .startSession (.object [("agent_type", .string "claude"), ("model", .string "opus"),
      ("project", .string "alpha")]),
    .read .getProjectSummary (.object [("project", .string "alpha")])]

/-- A state of the run. -/
def summedState (memories : List MemoryRow) (sessions : List SessionRow)
    (issued : List String) : MemoryState :=
  ⟨⟨{ MemoryTables.empty with memories := memories, sessions := sessions }, []⟩, issued⟩

section Steps

variable {memories : List MemoryRow} {sessions : List SessionRow} {issued : List String}

/-- A query that finds something in a state without faults. -/
theorem step_found {α : Type} {find : MemoryTables → α} {a : α}
    (h : find (summedState memories sessions issued).db.tables = a) :
  MemoryOp.Step (.connection (Connection.query find)) (summedState memories sessions issued)
    (Except.ok a : Except String α) (summedState memories sessions issued)
  := by
  refine ⟨?_, rfl⟩
  rw [Connection.query_on_ok rfl, h]
  rfl

/-- `session_stats` of a project with one session. -/
theorem step_oneSession :
  MemoryOp.Step
    (.connection (do
      let count ← Connection.query (fun tables : MemoryTables =>
        (tables.projectSessions "alpha").length)
      let last ← Connection.attempt (Connection.query fun tables : MemoryTables =>
        tables.lastStart "alpha")
      pure (count, last.toOption.join)))
    (summedState memories [alphaSession "s1" "1"] issued)
    (Except.ok (1, some "1") : Except String (ℕ × Option String))
    (summedState memories [alphaSession "s1" "1"] issued)
  := ⟨rfl, rfl⟩

end Steps

/-- The note is saved after the memories were counted and before they are shown, and the session is
started after the sessions were counted. -/
theorem summary_between_counts :
  ∃ c : MemoryPool, Pool.Run MemoryOp.Step Pool.anyStep
      ⟨summedState [] [alphaSession "s1" "1"] ["s1"],
        saveStartAndSum.map (MemoryCall.program SortBy.merge insertedOrders noTags)⟩ c
    ∧ c.state.db.tables.sessions = [alphaSession "s1" "1", alphaSession "s2" "2"]
    ∧ c.threads[2]? = some (.ret (.ok (MemoryTools.summaryAnswer []
      [memoryFromRow noTags (noteRow "m1" "alpha" "first")] (1, some "1") [])))
    ∧ AnswersSummary { MemoryTables.empty with sessions := [alphaSession "s1" "1"] }
      c.state.db.tables (¬ (summedState [] [alphaSession "s1" "1"] ["s1"]).db.Reliable)
      (.object [("project", .string "alpha")])
      (MemoryTools.summaryAnswer [] [memoryFromRow noTags (noteRow "m1" "alpha" "first")]
        (1, some "1") [])
  := by
  let note := noteRow "m1" "alpha" "first"
  let session := alphaSession "s1" "1"
  have hstart : Pool.Run MemoryOp.Step Pool.anyStep
      ⟨summedState [] [session] ["s1"],
        saveStartAndSum.map (MemoryCall.program SortBy.merge insertedOrders noTags)⟩
      ⟨summedState [] [session] ["s1"],
        saveStartAndSum.map (MemoryCall.program SortBy.merge insertedOrders noTags)⟩ :=
    Pool.Run.refl
  have hcounts : (summedState [] [session] ["s1"]).db.tables.categoryCounts "alpha" = [] :=
    congrArg (List.map _) List.mergeSort_nil
  have hinsert : MemoryOp.Step
      (.connection (Connection.statement (MemoryTables.insertMemory note)))
      (summedState [] [session] ["m1", "s1"]) (Except.ok () : Except String Unit)
      (summedState [note] [session] ["m1", "s1"]) := ⟨rfl, rfl⟩
  have hrecent : ((summedState [note] [session] ["m1", "s1"]).db.tables.pageRows
      Scan.inserted "alpha" none 5 0).map (memoryFromRow noTags) = [memoryFromRow noTags note] :=
    congrArg (fun rows => ((rows.drop 0).take 5).map (memoryFromRow noTags))
      (List.mergeSort_singleton _)
  have hsession : MemoryOp.Step
      (.connection (Connection.statement (MemoryTables.insertSession (alphaSession "s2" "2"))))
      (summedState [note] [session] ["s2", "m1", "s1"]) (Except.ok () : Except String Unit)
      (summedState [note] [session, alphaSession "s2" "2"] ["s2", "m1", "s1"]) := ⟨rfl, rfl⟩
  have hobservations : MemoryTables.recentObservations Scan.inserted "alpha" none 10
      (summedState [note] [session, alphaSession "s2" "2"] ["s2", "m1", "s1"]).db.tables = [] :=
    congrArg (List.take 10) List.mergeSort_nil
  have hrun := hstart.next 2 _ rfl trivial (step_found hcounts) rfl
  replace hrun := hrun.next 0 _ rfl trivial (step_uuid "m1" (by decide)) rfl
  replace hrun := hrun.next 0 _ rfl trivial (step_now "") rfl
  replace hrun := hrun.next 0 _ rfl trivial hinsert rfl
  replace hrun := hrun.next 2 _ rfl trivial (step_found hrecent) rfl
  replace hrun := hrun.next 2 _ rfl trivial step_oneSession rfl
  replace hrun := hrun.next 1 _ rfl trivial (step_uuid "s2" (by decide)) rfl
  replace hrun := hrun.next 1 _ rfl trivial (step_now "2") rfl
  replace hrun := hrun.next 1 _ rfl trivial hsession rfl
  replace hrun := hrun.next 2 _ rfl trivial (step_found hobservations) rfl
  have hnone : ∀ args, MemoryCall.write .deleteMemory args ∉ saveStartAndSum := by
    intro args hmem
    simp [saveStartAndSum] at hmem
  refine ⟨_, hrun, rfl, rfl, ?_⟩
  exact summary_between hnone hrun (i := 2) rfl rfl

end OrchestraRag
