import OrchestraRag.Library.Rely
import OrchestraRag.Memory.History
import OrchestraRag.Memory.Pages

/-!
# Calls among others

While a call runs, other calls change the tables.  When what every statement does follows a
relation between tables (`MemoryTables.Followed`), so do the changes of others, and a call ensures
what it would establish against all changes that follow it (`MemoryM.Ensuring`); others do not make
its statements fail, either.  What each call of
a run ensures in this way, and the relation keeps, holds at the end of the run
(`MemoryCall.of_run`).

Such a relation has to follow from what statements retain (`MemoryTables.followed_of_retained`).
-/

namespace OrchestraRag

open Sql

/-- A relation that follows from what is retained when memories are added at most. -/
theorem MemoryTables.followed_of_retained {Rel : MemoryTables → MemoryTables → Prop}
    (h : ∀ tables tables', Retained [] tables tables' → tables.Added tables' → Rel tables tables')
    (htrans : ∀ tables tables' tables'', Rel tables tables' → Rel tables' tables'' →
      Rel tables tables'') :
  Followed Rel
  := by
  have hadded := followed_added
  have hrefl : ∀ tables, Retained [] tables tables := fun _ => Retained.refl
  constructor
  · intro tables
    apply h _ _ (hrefl tables) (hadded.refl tables)
  · apply htrans
  · intro row tables tables' hinsert
    apply h _ _ ((hrefl tables).insertMemory List.not_mem_nil hinsert)
      (hadded.insertMemory row tables tables' hinsert)
  · intro codec now id content tags tables
    apply h _ _ ((hrefl tables).updateMemory codec now id content tags)
      (hadded.updateMemory codec now id content tags tables)
  · intro row tables tables' hinsert
    apply h _ _ ((hrefl tables).insertSession hinsert)
      (hadded.insertSession row tables tables' hinsert)
  · intro now sessionId tables
    apply h _ _ ((hrefl tables).endSession now sessionId)
      (hadded.endSession now sessionId tables)
  · intro arithmetic currentTimestamp sessionId tokens messages tools tables
    apply h _ _ ((hrefl tables).updateCounts arithmetic currentTimestamp sessionId tokens messages
      tools)
    apply hadded.updateCounts
  · intro row tables tables' hinsert
    apply h _ _ ((hrefl tables).insertObservation hinsert)
      (hadded.insertObservation row tables tables' hinsert)
  · intro row tables tables' hinsert
    apply h _ _ ((hrefl tables).insertSummary hinsert)
      (hadded.insertSummary row tables tables' hinsert)
  · intro embeddings tables
    apply h _ _ ((hrefl tables).setEmbeddings embeddings) (hadded.setEmbeddings embeddings tables)

/-- What others may do to a database: its tables follow the relation, and when no statement fails
none does later. -/
structure Moved (Rel : MemoryTables → MemoryTables → Prop) (db db' : Db MemoryTables) : Prop where
  tables : Rel db.tables db'.tables
  reliable : db.Reliable → db'.Reliable

section Moved

variable {Rel : MemoryTables → MemoryTables → Prop} (h : MemoryTables.Followed Rel)

include h

theorem moved_refl (db : Db MemoryTables) :
  Moved Rel db db
  := ⟨h.refl db.tables, id⟩

theorem Moved.trans {db db' db'' : Db MemoryTables} (hdb : Moved Rel db db')
    (hdb' : Moved Rel db' db'') :
  Moved Rel db db''
  := ⟨h.trans _ _ _ hdb.tables hdb'.tables, fun hreliable => hdb'.reliable (hdb.reliable hreliable)⟩

theorem MemoryOp.Follows.moved {op : MemoryOp} {s s' : MemoryState} {x : MemoryAns op}
    (hop : op.Follows Rel) (hstep : MemoryOp.Step op s x s') :
  Moved Rel s.db s'.db
  := ⟨hop.step h hstep, hop.reliable hstep⟩

end Moved

/-! ### Programs -/

namespace MemoryM

open MemoryTables

variable {α β : Type} (Rel : MemoryTables → MemoryTables → Prop)

/-- From `s` on, while others follow the relation, a value that the program returns satisfies `Q`
with the database at that time. -/
abbrev Ensuring (Q : α → Db MemoryTables → Prop) (s : MemoryState) (program : MemoryM α) : Prop :=
  Program.Ensures MemoryOp.Step (fun s s' => Moved Rel s.db s'.db)
    (fun r s => ∀ a, r = .ok a → Q a s.db) s program.run

variable {Rel} {Q : α → Db MemoryTables → Prop} {Q' : β → Db MemoryTables → Prop} {s : MemoryState}
  {program : MemoryM α} {f : α → MemoryM β} {args : Json} {field : String}

theorem ensuring_pure {a : α} (ha : Q a s.db) :
  Ensuring Rel Q s (pure a)
  := by
  apply Program.Ensures.ret
  rintro b ⟨⟩
  apply ha

theorem Ensuring.bind (h : Ensuring Rel Q s program)
    (hf : ∀ a s', Q a s'.db → Ensuring Rel Q' s' (f a)) :
  Ensuring Rel Q' s (program >>= f)
  := Program.ensures_fallible_bind (Q := fun a s => Q a s.db) h hf

theorem Ensuring.named (h : Ensuring Rel Q s program) (call : String) :
  Ensuring Rel Q s (program.named call)
  := by
  apply Program.Ensures.map h
  rintro (e | a) s' ha b hb
  · cases hb
  · apply ha b hb

/-- A call that is named, and the answer after it. -/
theorem Ensuring.answer {Q' : Json → Db MemoryTables → Prop} {answer : α → Json}
    (h : Ensuring Rel (fun a => Q' (answer a)) s program) (call : String) :
  Ensuring Rel Q' s (program.named call >>= fun a => pure (answer a))
  := by
  apply (h.named call).bind
  intro a s' ha
  apply ensuring_pure ha

theorem ensuring_requiredStr_bind {f : String → MemoryM α}
    (h : ∀ value, (args.index field).asStr = some value → Ensuring Rel Q s (f value)) :
  Ensuring Rel Q s (requiredStr args field >>= f)
  := by
  rw [requiredStr]
  cases hvalue : (args.index field).asStr with
  | none =>
      apply Program.Ensures.ret
      intro a ha
      cases ha
  | some value => apply h value hvalue

theorem ensuring_withConnection {c : Connection MemoryTables α}
    (h : ∀ db db' a, Moved Rel s.db db → c.on db = (.ok a, db') → Q a db') :
  Ensuring Rel Q s (withConnection c)
  := by
  have hcall : Program.Ensures MemoryOp.Step (fun s s' => Moved Rel s.db s'.db)
      (fun (x : Except String α) s => ∀ a, x = .ok a → Q a s.db) s
      (Program.call (MemoryOp.connection c)) := by
    apply @Program.ensures_call _ _ _ _ MemoryAns _ (.connection c)
    rintro s₁ x s₂ hs ⟨hon, -⟩ a rfl
    apply h s₁.db s₂.db a hs hon
  apply hcall.map
  rintro (e | a) s' ha b hb
  · cases hb
  · apply ha b hb

/-- A query finds what is there when it runs. -/
theorem ensuring_query {find : MemoryTables → α}
    (h : ∀ db, Moved Rel s.db db → Q (find db.tables) db) :
  Ensuring Rel Q s (withConnection (Connection.query find))
  := by
  apply ensuring_withConnection
  intro db db' a hdb hon
  obtain ⟨rfl, htables⟩ := Connection.query_on_eq_ok hon
  rw [← htables]
  apply h db'
  constructor
  · rw [htables]
    apply hdb.tables
  · intro hreliable
    apply Connection.reliable_of_query hon (hdb.reliable hreliable)

variable (hfollowed : MemoryTables.Followed Rel)

include hfollowed

/-- What others keep is kept by a program that follows them. -/
theorem Follows.ensuring (h : Follows Rel program) {J : MemoryTables → Prop}
    (hJ : ∀ tables tables', Rel tables tables' → J tables → J tables') (hs : J s.db.tables) :
  Ensuring Rel (fun _ db => J db.tables) s program
  := by
  have hstep : ∀ op (s : MemoryState) (x : MemoryAns op) s', MemoryOp.Follows Rel op →
      MemoryOp.Step op s x s' → Moved Rel s.db s'.db := by
    intro op s x s' hop hstep
    apply hop.moved hfollowed hstep
  have hensures := Program.Uses.ensures (J := fun s : MemoryState => J s.db.tables) h hstep
    (fun s s' hmoved => hJ s.db.tables s'.db.tables hmoved.tables) hs
  apply hensures.mono
  intro r s' hs' _ _
  apply hs'

/-- A program that goes on with a new UUID. -/
theorem ensuring_uuid_bind {f : String → MemoryM α}
    (h : ∀ id s', Rel s.db.tables s'.db.tables → Ensuring Rel Q s' (f id)) :
  Ensuring Rel Q s (uuid >>= f)
  := by
  apply (follows_uuid.ensuring hfollowed (J := Rel s.db.tables)
    (fun tables tables' h hs => hfollowed.trans _ _ _ hs h) (hfollowed.refl _)).bind
  apply h

/-- A program that goes on with the time. -/
theorem ensuring_now_bind {f : String → MemoryM α}
    (h : ∀ time s', Rel s.db.tables s'.db.tables → Ensuring Rel Q s' (f time)) :
  Ensuring Rel Q s (now >>= f)
  := by
  apply (follows_now.ensuring hfollowed (J := Rel s.db.tables)
    (fun tables tables' h hs => hfollowed.trans _ _ _ hs h) (hfollowed.refl _)).bind
  apply h

/-- A row is inserted under a new id. -/
theorem ensuring_insert {Q : String → Db MemoryTables → Prop}
    {c : String → String → Connection MemoryTables Unit}
    (h : ∀ id now db db', (c id now).on db = (.ok (), db') → Q id db') :
  Ensuring Rel Q s (do
    let id ← uuid
    let now ← now
    withConnection (c id now)
    pure id)
  := by
  apply ensuring_uuid_bind hfollowed
  intro id s₁ _
  apply ensuring_now_bind hfollowed
  intro now s₂ _
  have hinsert : Ensuring Rel (fun _ => Q id) s₂ (withConnection (c id now)) := by
    apply ensuring_withConnection
    intro db db' _ _ hon
    apply h id now db db' hon
  apply hinsert.bind
  intro _ s₃ hid
  apply ensuring_pure hid

end MemoryM

/-! ### Runs -/

section Runs

variable {F : Type} [SingleFloat F] {sorting : SortBy} {orders : Orders F} {codec : TagCodec}
  {Rel : MemoryTables → MemoryTables → Prop}

/-- What each call ensures of its answer and the relation keeps holds at the end of every run of
calls that follow the relation, for the calls that have answered. -/
theorem MemoryCall.of_run {calls : List MemoryCall} {s : MemoryState} {c : MemoryPool}
    (hfollowed : MemoryTables.Followed Rel)
    (hdelete : ∀ args, MemoryCall.write .deleteMemory args ∈ calls →
      MemoryTables.AllowsDeletion Rel)
    {Q : MemoryCall → Json → Db MemoryTables → Prop}
    (hstable : ∀ call answer db db', Moved Rel db db' → Q call answer db → Q call answer db')
    (hcalls : ∀ call ∈ calls,
      MemoryM.Ensuring Rel (Q call) s (call.program sorting orders codec))
    (h : Pool.Run MemoryOp.Step Pool.anyStep
      ⟨s, calls.map (MemoryCall.program sorting orders codec)⟩ c)
    {i : ℕ} {call : MemoryCall} {answer : Json} (hcall : calls[i]? = some call)
    (hreturned : c.threads[i]? = some (.ret (.ok answer))) :
  Q call answer c.state.db
  := by
  let P (i : ℕ) (r : Except String Json) (s' : MemoryState) : Prop :=
    ∀ answer, r = .ok answer → ∀ call, calls[i]? = some call → Q call answer s'.db
  have hP : ∀ i, Program.Stable (fun s s' : MemoryState => Moved Rel s.db s'.db) (P i) := by
    intro i r s₁ s₂ hs hr answer hanswer call hcall
    apply hstable _ _ _ _ hs (hr answer hanswer call hcall)
  have hstep : ∀ op (s : MemoryState) (x : MemoryAns op) s',
      MemoryOp.Follows Rel op → MemoryOp.Step op s x s' → Moved Rel s.db s'.db := by
    intro op s x s' hop hstep
    apply hop.moved hfollowed hstep
  have hfollows : ∀ t ∈ calls.map (MemoryCall.program sorting orders codec),
      t.Uses (MemoryOp.Follows Rel) := by
    intro t ht
    obtain ⟨call, hcall, rfl⟩ := List.mem_map.mp ht
    apply call.follows hfollowed
    rintro args rfl
    apply hdelete args hcall
  have hthreads : ∀ (i : ℕ) t, (calls.map (MemoryCall.program sorting orders codec))[i]? = some t →
      Program.Ensures MemoryOp.Step (fun s s' => Moved Rel s.db s'.db) (P i) s t := by
    intro i t ht
    rw [List.getElem?_map] at ht
    obtain ⟨call, hcall, rfl⟩ := Option.map_eq_some_iff.mp ht
    apply (hcalls call (List.mem_of_getElem? hcall)).mono
    intro r s' hr answer hanswer call' hcall'
    obtain rfl := Option.some.inj (hcall.symm.trans hcall')
    apply hr answer hanswer
  have hensures := h.ensures (fun s => moved_refl hfollowed s.db)
    (fun _ _ _ hs hs' => hs.trans hfollowed hs') hstep hP hfollows hthreads i _ hreturned
  cases hensures with
  | ret hrecorded => apply hrecorded answer rfl call hcall

end Runs

end OrchestraRag
