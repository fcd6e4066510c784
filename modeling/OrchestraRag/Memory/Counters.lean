import Mathlib.Algebra.BigOperators.Group.List.Basic
import Mathlib.Algebra.Group.Prod
import OrchestraRag.Library.Outcome
import OrchestraRag.Library.Trace
import OrchestraRag.Memory.Acknowledged
import OrchestraRag.Memory.Sessions

/-!
# Counters of sessions

Each call of `update_counts` adds to the three counters of a session.  SQLite adds; a sum that has
no 64 bits becomes a REAL, and then the session cannot be read any more (`CountedBy.unreadable`).
So the counters are the sums of the increments exactly as long as every partial sum stays in the
range (`counters_exact_iff`).
-/

namespace OrchestraRag

open Sql

/-- Tokens, messages and tools. -/
abbrev Counts : Type :=
  ℤ × ℤ × ℤ

/-- All three counts have 64 bits. -/
def Counts.InRange (counts : Counts) : Prop :=
  InI64 counts.1 ∧ InI64 counts.2.1 ∧ InI64 counts.2.2

/-- The arguments of a call of `update_counts`. -/
structure CountUpdate where
  sessionId : String
  tokens : Int64
  messages : Int64
  tools : Int64

def CountUpdate.counts (update : CountUpdate) : Counts :=
  (update.tokens.toInt, update.messages.toInt, update.tools.toInt)

/-! ### Rows -/

/-- The columns of the row hold these counts. -/
structure SessionRow.Counted (row : SessionRow) (counts : Counts) : Prop where
  tokens : row.tokenCount.Is counts.1
  messages : row.messageCount.Is counts.2.1
  tools : row.toolCount.Is counts.2.2

def Session.counts (session : Session) : Counts :=
  (session.tokenCount.toInt, session.messageCount.toInt, session.toolCount.toInt)

theorem Session.inRange_counts (session : Session) :
  session.counts.InRange
  := ⟨inI64_toInt _, inI64_toInt _, inI64_toInt _⟩

/-- A row whose columns hold counts is read. -/
theorem exists_sessionFromRow {row : SessionRow} {counts : Counts} (h : row.Counted counts) :
  ∃ session, sessionFromRow row = .ok session ∧ session.id = row.id ∧ session.counts = counts
  := by
  obtain ⟨⟨tokens, htokens, hcount⟩, ⟨messages, hmessages, hcount'⟩, tools, htools, hcount''⟩ := h
  rw [sessionFromRow, htokens, hmessages, htools]
  use ⟨row.id, row.project, row.startedAt, row.endedAt, row.agentType, row.model, tokens, messages,
    tools⟩, rfl, rfl
  rw [Session.counts, hcount, hcount', hcount'']

/-- A row with a column that is no integer is not read. -/
theorem exists_error_sessionFromRow {row : SessionRow}
    (h : (∃ e, row.tokenCount.get 6 "token_count" = .error e)
      ∨ (∃ e, row.messageCount.get 7 "message_count" = .error e)
      ∨ ∃ e, row.toolCount.get 8 "tool_count" = .error e) :
  ∃ e, sessionFromRow row = .error e
  := by
  cases hsession : sessionFromRow row with
  | error e => exact ⟨e, rfl⟩
  | ok session =>
      rw [sessionFromRow] at hsession
      obtain ⟨_, htokens, hsession⟩ := Outcome.bind_eq_ok.mp hsession
      obtain ⟨_, hmessages, hsession⟩ := Outcome.bind_eq_ok.mp hsession
      obtain ⟨_, htools, -⟩ := Outcome.bind_eq_ok.mp hsession
      rcases h with ⟨e, he⟩ | ⟨e, he⟩ | ⟨e, he⟩
      · rw [he] at htokens
        cases htokens
      · rw [he] at hmessages
        cases hmessages
      · rw [he] at htools
        cases htools

/-- The counters of a row after an update. -/
theorem counted_update {row : SessionRow} {counts : Counts} (h : row.Counted counts)
    (arithmetic : RealArithmetic) (currentTimestamp : String) {update : CountUpdate}
    (hrange : (counts + update.counts).InRange) :
  ({ row with
      tokenCount := row.tokenCount.add arithmetic update.tokens
      messageCount := row.messageCount.add arithmetic update.messages
      toolCount := row.toolCount.add arithmetic update.tools
      updatedAt := some currentTimestamp } : SessionRow).Counted (counts + update.counts)
  := by
  constructor
  · apply h.tokens.add arithmetic hrange.1
  · apply h.messages.add arithmetic hrange.2.1
  · apply h.tools.add arithmetic hrange.2.2

/-- After a sum that leaves the range the row is not read. -/
theorem exists_error_update {row : SessionRow} {counts : Counts} (h : row.Counted counts)
    (arithmetic : RealArithmetic) (currentTimestamp : String) {update : CountUpdate}
    (hrange : ¬ (counts + update.counts).InRange) :
  ∃ e, sessionFromRow { row with
      tokenCount := row.tokenCount.add arithmetic update.tokens
      messageCount := row.messageCount.add arithmetic update.messages
      toolCount := row.toolCount.add arithmetic update.tools
      updatedAt := some currentTimestamp } = .error e
  := by
  apply exists_error_sessionFromRow
  by_cases htokens : InI64 (counts.1 + update.tokens.toInt)
  · apply Or.inr
    by_cases hmessages : InI64 (counts.2.1 + update.messages.toInt)
    · apply Or.inr
      apply h.tools.add_overflow
      intro htools
      apply hrange ⟨htokens, hmessages, htools⟩
    · apply Or.inl
      apply h.messages.add_overflow arithmetic hmessages
  · apply Or.inl
    apply h.tokens.add_overflow arithmetic htokens

/-! ### Calls -/

/-- A call, and what it returned. -/
abbrev CountEvent : Type :=
  CountUpdate × Except String Unit

/-- A call of `update_counts`. -/
def CountStep (arithmetic : RealArithmetic) (s : MemoryState) (e : CountEvent) (s' : MemoryState) :
    Prop :=
  ∃ currentTimestamp, (SessionManager.updateCounts arithmetic currentTimestamp e.1.sessionId
    e.1.tokens e.1.messages e.1.tools).Runs s e.2 s'

/-- What a call adds to the counters of a session, if it is accepted. -/
def CountEvent.addedTo (id : String) (e : CountEvent) : Counts :=
  if e.1.sessionId = id ∧ e.2.isOk then e.1.counts else 0

/-- What the accepted calls add to the counters of a session. -/
def added (id : String) (events : List CountEvent) : Counts :=
  (events.map (CountEvent.addedTo id)).sum

@[simp]
theorem added_nil (id : String) :
  added id [] = 0
  := rfl

@[simp]
theorem added_cons (id : String) (e : CountEvent) (events : List CountEvent) :
  added id (e :: events) = e.addedTo id + added id events
  := by
  rw [added, List.map_cons, List.sum_cons, added]

/-- The order of the calls does not matter. -/
theorem added_perm {events events' : List CountEvent} (h : events.Perm events') (id : String) :
  added id events = added id events'
  := (h.map _).sum_eq

/-- Every session has its counts. -/
structure CountedBy (ids : List String) (counts : String → Counts) (s : MemoryState) : Prop where
  reliable : s.db.Reliable
  ids : s.db.tables.sessions.map SessionRow.id = ids
  counted : ∀ row ∈ s.db.tables.sessions, row.Counted (counts row.id)

section Step

variable {arithmetic : RealArithmetic} {s s' : MemoryState} {e : CountEvent} {ids : List String}
  {counts : String → Counts}

/-- A call is accepted, and changes the sessions only. -/
theorem of_countStep (h : CountStep arithmetic s e s') (hs : s.db.Reliable) :
  e.2 = .ok () ∧ s'.db.Reliable ∧ ∃ currentTimestamp, s'.db.tables
    = s.db.tables.updateCounts arithmetic currentTimestamp e.1.sessionId e.1.tokens e.1.messages
      e.1.tools
  := by
  obtain ⟨currentTimestamp, hruns⟩ := h
  obtain ⟨hok, -, hdb⟩ := MemoryM.of_runs_execute_reliable hs hruns
  rw [hdb]
  exact ⟨hok, hs.after _, currentTimestamp, rfl⟩

/-- A call whose sums stay in the range adds to the counts. -/
theorem CountedBy.step (hs : CountedBy ids counts s) (h : CountStep arithmetic s e s')
    (hrange : ∀ id ∈ ids, (counts id + e.addedTo id).InRange) :
  CountedBy ids (fun id => counts id + e.addedTo id) s'
  := by
  obtain ⟨hok, hreliable, currentTimestamp, htables⟩ := of_countStep h hs.reliable
  use hreliable
  · rw [htables, MemoryTables.updateCounts, List.map_map, ← hs.ids]
    apply List.map_congr_left
    intro row _
    rw [Function.comp_apply]
    split
    · rfl
    · rfl
  · intro row hrow
    rw [htables] at hrow
    obtain ⟨old, hold, rfl⟩ := List.mem_map.mp hrow
    have hcounted := hs.counted old hold
    have hmem : old.id ∈ ids := hs.ids ▸ List.mem_map_of_mem hold
    have hinRange := hrange old.id hmem
    by_cases hid : old.id = e.1.sessionId
    · have hadded : e.addedTo old.id = e.1.counts := by
        rw [CountEvent.addedTo, hok]
        apply if_pos ⟨hid.symm, rfl⟩
      rw [hadded] at hinRange
      rw [if_pos hid]
      dsimp only
      rw [hadded]
      apply counted_update hcounted arithmetic currentTimestamp hinRange
    · have hadded : e.addedTo old.id = 0 := by
        apply if_neg
        rintro ⟨hsame, -⟩
        apply hid hsame.symm
      rw [if_neg hid, hadded, add_zero]
      apply hcounted

/-- A call with a sum that leaves the range is accepted, but the session cannot be read any more. -/
theorem CountedBy.unreadable (hs : CountedBy ids counts s) (h : CountStep arithmetic s e s')
    (hid : e.1.sessionId ∈ ids) (hrange : ¬ (counts e.1.sessionId + e.1.counts).InRange) :
  e.2 = .ok () ∧ ∃ error,
    MemoryM.Reads s' (SessionManager.getSession e.1.sessionId) (.error error)
  := by
  obtain ⟨hok, hreliable, currentTimestamp, htables⟩ := of_countStep h hs.reliable
  use hok
  cases hfind : s'.db.tables.sessionRow e.1.sessionId with
  | none =>
      rw [← hs.ids] at hid
      obtain ⟨old, hold, hsame⟩ := List.mem_map.mp hid
      have hnone := List.find?_eq_none.mp hfind
      rw [htables] at hnone
      have hmem := hnone _ (List.mem_map_of_mem hold)
      rw [if_pos hsame] at hmem
      apply absurd (decide_eq_true hsame) hmem
  | some row =>
      have hrow := List.mem_of_find?_eq_some hfind
      have hdecide := List.find?_some hfind
      have hsame := of_decide_eq_true hdecide
      rw [htables] at hrow
      obtain ⟨old, hold, rfl⟩ := List.mem_map.mp hrow
      have hcounted := hs.counted old hold
      by_cases hupdated : old.id = e.1.sessionId
      · rw [hupdated] at hcounted
        rw [if_pos hupdated] at hfind
        obtain ⟨error, herror⟩ := exists_error_update hcounted arithmetic currentTimestamp hrange
        have hread := MemoryM.reads_select hreliable
          (fun tables => (tables.sessionRow e.1.sessionId).mapM sessionFromRow)
        rw [hfind, Option.mapM_some, herror] at hread
        exact ⟨_, hread⟩
      · rw [if_neg hupdated] at hsame
        apply absurd hsame hupdated

end Step

/-! ### Runs -/

/-- The session is read, and the sessions of a project are listed, with the counts. -/
structure CountersExact (ids : List String) (counts : String → Counts) (s : MemoryState) :
    Prop where
  get : ∀ id ∈ ids, ∃ session,
    MemoryM.Reads s (SessionManager.getSession id) (.ok (some session))
      ∧ session.id = id ∧ session.counts = counts id
  list : ∀ scan project limit, ∃ sessions,
    MemoryM.Reads s (SessionManager.listSessions scan project limit) (.ok sessions)
      ∧ sessions.map Session.id
        = (s.db.tables.recentSessions scan project limit).map SessionRow.id
      ∧ ∀ session ∈ sessions, session.counts = counts session.id

section Runs

variable {arithmetic : RealArithmetic} {s : MemoryState} {ids : List String}
  {counts : String → Counts} {history : List (CountEvent × MemoryState)}

/-- The events of a history. -/
abbrev events (history : List (CountEvent × MemoryState)) : List CountEvent :=
  history.map Prod.fst

/-- A run whose partial sums stay in the range adds to the counts. -/
theorem CountedBy.run (h : Trace (CountStep arithmetic) s history) (hs : CountedBy ids counts s)
    (hrange : ∀ before after, history = before ++ after →
      ∀ id ∈ ids, (counts id + added id (events before)).InRange) :
  CountedBy ids (fun id => counts id + added id (events history)) (Trace.last s history)
  := by
  induction h generalizing counts with
  | nil =>
      simp only [events, List.map_nil, added_nil, add_zero]
      apply hs
  | @cons s s' e history hfirst _ ih =>
      have hone : ∀ id ∈ ids, (counts id + e.addedTo id).InRange := by
        intro id hid
        have hinRange := hrange [(e, s')] history rfl id hid
        rw [events, List.map_singleton, added_cons, added_nil, add_zero] at hinRange
        apply hinRange
      have hrest := ih (hs.step hfirst hone) (by
        intro before after hsplit id hid
        have hinRange := hrange ((e, s') :: before) after (congrArg ((e, s') :: ·) hsplit) id hid
        rw [events, List.map_cons, added_cons, ← add_assoc] at hinRange
        apply hinRange)
      have hcounts : (fun id => counts id + added id (events ((e, s') :: history)))
          = fun id => counts id + e.addedTo id + added id (events history) := by
        funext id
        rw [events, List.map_cons, added_cons, ← add_assoc]
      rw [hcounts]
      apply hrest

theorem mem_of_mem_limit_sessions {scan : Scan SessionRow} {project : String} {limit : ℕ}
    {row : SessionRow} (h : row ∈ s.db.tables.recentSessions scan project limit) :
  row ∈ s.db.tables.sessions
  := by
  rw [MemoryTables.recentSessions, Sql.limit] at h
  have hsorted : row ∈ scan.orderBy MemoryTables.byStartedAt
      (s.db.tables.projectSessions project) := by
    split at h
    · apply h
    · apply List.mem_of_mem_take h
  apply (List.mem_filter.mp (Scan.mem_orderBy.mp hsorted)).1

/-- A session that has its counts is read with them. -/
theorem CountedBy.reads_getSession (hs : CountedBy ids counts s) {id : String} (hid : id ∈ ids) :
  ∃ session, MemoryM.Reads s (SessionManager.getSession id) (.ok (some session))
    ∧ session.id = id ∧ session.counts = counts id
  := by
  rw [← hs.ids] at hid
  obtain ⟨row, hrow, hrowId⟩ := List.mem_map.mp hid
  cases hfind : s.db.tables.sessionRow id with
  | none =>
      have hnone := List.find?_eq_none.mp hfind row hrow
      rw [hrowId] at hnone
      simp at hnone
  | some found =>
      have hfound := hs.counted found (List.mem_of_find?_eq_some hfind)
      have hdecide := List.find?_some hfind
      have hid := of_decide_eq_true hdecide
      obtain ⟨session, hsession, hsame, hcounts⟩ := exists_sessionFromRow hfound
      use session
      constructor
      · have hread := MemoryM.reads_select hs.reliable
          (fun tables => (tables.sessionRow id).mapM sessionFromRow)
        rw [hfind] at hread
        have hmap : (some found).mapM sessionFromRow = .ok (some session) := by
          rw [Option.mapM_some, hsession]
          rfl
        rw [hmap] at hread
        apply hread
      · rw [hsame, hcounts, hid]
        exact ⟨rfl, rfl⟩

theorem of_forall₂_counted {rows : List SessionRow} {sessions : List Session}
    (h : List.Forall₂
      (fun row session => session.id = row.id ∧ session.counts = counts row.id) rows sessions) :
  sessions.map Session.id = rows.map SessionRow.id
    ∧ ∀ session ∈ sessions, session.counts = counts session.id
  := by
  induction h with
  | nil =>
      use rfl
      rintro session ⟨⟩
  | cons hhead _ ih =>
      rw [List.map_cons, List.map_cons, ih.1, hhead.1, List.forall_mem_cons, hhead.2]
      exact ⟨rfl, hhead.1 ▸ rfl, ih.2⟩

/-- Sessions that have their counts are listed with them. -/
theorem CountedBy.reads_listSessions (hs : CountedBy ids counts s) (scan : Scan SessionRow)
    (project : String) (limit : ℕ) :
  ∃ sessions, MemoryM.Reads s (SessionManager.listSessions scan project limit) (.ok sessions)
    ∧ sessions.map Session.id
      = (s.db.tables.recentSessions scan project limit).map SessionRow.id
    ∧ ∀ session ∈ sessions, session.counts = counts session.id
  := by
  have hrows : ∀ row ∈ s.db.tables.recentSessions scan project limit, ∃ session,
      sessionFromRow row = .ok session
        ∧ session.id = row.id ∧ session.counts = counts row.id := by
    intro row hrow
    apply exists_sessionFromRow (hs.counted row (mem_of_mem_limit_sessions hrow))
  obtain ⟨sessions, hmap, hall⟩ := Outcome.exists_mapM hrows
  use sessions
  constructor
  · have hread := MemoryM.reads_select hs.reliable
      (fun tables => (tables.recentSessions scan project limit).mapM sessionFromRow)
    rw [hmap] at hread
    apply hread
  · apply of_forall₂_counted hall

theorem CountedBy.exact (hs : CountedBy ids counts s) :
  CountersExact ids counts s
  := by
  constructor
  · intro id
    apply hs.reads_getSession
  · apply hs.reads_listSessions

/-- In every run of calls of `update_counts`, in any order, the sessions are read and listed with
the sums of the accepted increments after every call exactly when all partial sums stay in the
range of 64 bits.  The sums do not depend on the order of the calls. -/
theorem counters_exact_iff (arithmetic : RealArithmetic) {s : MemoryState}
    {counts : String → Counts} {history : List (CountEvent × MemoryState)}
    (h : Trace (CountStep arithmetic) s history) (hreliable : s.db.Reliable)
    (hcounted : ∀ row ∈ s.db.tables.sessions, row.Counted (counts row.id)) :
  ((∀ before after, history = before ++ after →
      CountersExact (s.db.tables.sessions.map SessionRow.id)
        (fun id => counts id + added id (events before)) (Trace.last s before))
    ↔ ∀ before after, history = before ++ after →
      ∀ id ∈ s.db.tables.sessions.map SessionRow.id,
        (counts id + added id (events before)).InRange)
  ∧ ∀ events', events'.Perm (events history) → ∀ id, added id events' = added id (events history)
  := by
  constructor
  · constructor
    · intro hexact before after hsplit id hid
      obtain ⟨session, -, -, hsame⟩ := (hexact before after hsplit).get id hid
      rw [← hsame]
      apply session.inRange_counts
    · intro hrange before after hsplit
      have hbefore : Trace (CountStep arithmetic) s before := by
        rw [hsplit] at h
        apply h.of_append
      have hs : CountedBy (s.db.tables.sessions.map SessionRow.id) counts s :=
        ⟨hreliable, rfl, hcounted⟩
      apply (hs.run hbefore _).exact
      intro before' after' hsplit' id hid
      apply hrange before' (after' ++ after) _ id hid
      rw [hsplit, hsplit', List.append_assoc]
  · intro events' hperm id
    apply added_perm hperm

end Runs

/-! ### An overflow -/

/-- A session that has just started. -/
def startedRow : SessionRow :=
  ⟨"s1", "proj", "2024-01-01T00:00:00+00:00", none, "claude", "opus", 0, 0, 0, none⟩

/-- The only row is the session that has just started. -/
def startedState : MemoryState :=
  ⟨⟨{ MemoryTables.empty with sessions := [startedRow] }, []⟩, ["s1"]⟩

/-- Every sum that overflows is the double 2 ^ 63, which no integer changes. -/
def sampleArithmetic : RealArithmetic where
  ofSum _ _ := 0x43E0000000000000
  add bits _ := .real bits

/-- As many tokens as an `i64` can count. -/
def mostTokens : CountUpdate :=
  ⟨"s1", 9223372036854775807, 0, 0⟩

def oneToken : CountUpdate :=
  ⟨"s1", 1, 0, 0⟩

/-- A call has a step, which is accepted. -/
theorem exists_countStep (arithmetic : RealArithmetic) {s : MemoryState} (hs : s.db.Reliable)
    (update : CountUpdate) :
  ∃ s', CountStep arithmetic s (update, .ok ()) s'
  := by
  obtain ⟨r, s', hruns⟩ := MemoryM.exists_runs (SessionManager.updateCounts arithmetic ""
    update.sessionId update.tokens update.messages update.tools) s
  obtain ⟨rfl, -, -⟩ := MemoryM.of_runs_execute_reliable hs hruns
  exact ⟨s', "", hruns⟩

/-- The two updates, one after the other. -/
theorem exists_overflow (arithmetic : RealArithmetic) :
  ∃ s s', Trace (CountStep arithmetic) startedState
    [((mostTokens, .ok ()), s), ((oneToken, .ok ()), s')]
  := by
  obtain ⟨s, hmost⟩ := exists_countStep arithmetic (s := startedState) rfl mostTokens
  obtain ⟨-, hreliable, -⟩ := of_countStep hmost rfl
  obtain ⟨s', hone⟩ := exists_countStep arithmetic hreliable oneToken
  exact ⟨s, s', Trace.cons hmost (Trace.cons hone Trace.nil)⟩

theorem counted_startedRow :
  ∀ row ∈ startedState.db.tables.sessions, row.Counted ((fun _ => 0 : String → Counts) row.id)
  := by
  intro row hrow
  obtain rfl := List.mem_singleton.mp hrow
  exact ⟨StoredNumber.is_zero, StoredNumber.is_zero, StoredNumber.is_zero⟩

/-- One token more than an `i64` can count. -/
theorem not_inRange_overflow :
  ¬ (0 + added "s1" [(mostTokens, .ok ()), (oneToken, .ok ())]).InRange
  := by
  rintro ⟨⟨-, hlt⟩, -⟩
  revert hlt
  decide

/-- After the second update the counters are not read as the sums. -/
theorem counters_exact_iff_overflow :
  ∃ history, Trace (CountStep sampleArithmetic) startedState history
    ∧ events history = [(mostTokens, .ok ()), (oneToken, .ok ())]
    ∧ ¬ ∀ before after, history = before ++ after →
      CountersExact ["s1"] (fun id => 0 + added id (events before))
        (Trace.last startedState before)
  := by
  obtain ⟨s, s', htrace⟩ := exists_overflow sampleArithmetic
  refine ⟨_, htrace, rfl, ?_⟩
  intro hexact
  apply not_inRange_overflow
  apply (counters_exact_iff sampleArithmetic htrace rfl counted_startedRow).1.mp hexact _ []
    (List.append_nil _).symm "s1" List.mem_cons_self

/-- The session cannot be read with the sum of its tokens. -/
theorem not_counters_exact_overflow :
  ¬ ∀ (arithmetic : RealArithmetic) (s : MemoryState) (history : List (CountEvent × MemoryState)),
      Trace (CountStep arithmetic) s history → s.db.Reliable →
      (∀ row ∈ s.db.tables.sessions, row.Counted 0) →
        CountersExact (s.db.tables.sessions.map SessionRow.id)
          (fun id => 0 + added id (events history)) (Trace.last s history)
  := by
  intro hall
  obtain ⟨s, s', htrace⟩ := exists_overflow sampleArithmetic
  have hexact := hall sampleArithmetic startedState _ htrace rfl counted_startedRow
  obtain ⟨session, -, -, hsame⟩ := hexact.get "s1" List.mem_cons_self
  apply not_inRange_overflow
  have hinRange := session.inRange_counts
  rw [hsame] at hinRange
  apply hinRange

end OrchestraRag
