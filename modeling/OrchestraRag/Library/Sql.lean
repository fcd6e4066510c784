import Mathlib.Algebra.Group.Int.Defs
import Mathlib.Algebra.Group.Nat.Defs
import Mathlib.Data.List.Perm.Basic
import Mathlib.Data.List.Count
import Mathlib.Data.List.Sort
import Mathlib.Data.Multiset.Basic

/-!
# Tables and statements

A connection runs statements on a database, one after another.  Any statement may fail; a
failed one changes nothing.  Which statements fail is the `faults` of the database, the
errors of the statements to come; after its end all succeed.

* `Connection.execute` changes the tables, `Connection.query` reads them; `Connection.statement`
  does both, and the tables may reject it.
* `insertAll` inserts rows one by one; when it fails it leaves a proper prefix of them.
* `Scan` is the order in which a query meets the rows that its `ORDER BY` does not tell apart;
  `limit` and `offset` cut what it meets.
* `like` is the `LIKE` operator.
-/

namespace Sql

/-- The tables, and for each statement to come its error, if it fails. -/
structure Db (τ : Type) where
  tables : τ
  faults : List (Option String)

/-- A computation that runs statements; its error is the one of a failed statement. -/
abbrev Connection (τ α : Type) : Type :=
  ExceptT String (StateM (Db τ)) α

namespace Db

variable {τ : Type}

/-- No statement fails. -/
def Reliable (db : Db τ) : Prop :=
  db.faults = []

/-- The error of the next statement, if it fails. -/
def nextFault (db : Db τ) : Option String :=
  db.faults.head?.join

/-- The database after a statement that leaves `tables`. -/
def after (db : Db τ) (tables : τ) : Db τ :=
  ⟨tables, db.faults.tail⟩

@[simp]
theorem after_tables (db : Db τ) (tables : τ) :
  (db.after tables).tables = tables
  := rfl

theorem Reliable.nextFault {db : Db τ} (h : db.Reliable) :
  db.nextFault = none
  := by
  rw [Db.nextFault, h]
  rfl

/-- A statement that changes no table leaves a reliable database as it was. -/
theorem Reliable.after_self {db : Db τ} (h : db.Reliable) :
  db.after db.tables = db
  := by
  obtain ⟨tables, faults⟩ := db
  obtain rfl : faults = [] := h
  rfl

theorem Reliable.after {db : Db τ} (h : db.Reliable) (tables : τ) :
  (db.after tables).Reliable
  := by
  rw [Reliable, Db.after, h]
  rfl

/-- Of two statements on a reliable database the second decides what is left. -/
theorem Reliable.after_after {db : Db τ} (h : db.Reliable) (tables tables' : τ) :
  (db.after tables).after tables' = db.after tables'
  := by
  rw [Db.after, Db.after, Db.after, h]
  rfl

end Db

namespace Connection

variable {τ α β : Type}

/-- Run a statement that changes the tables. -/
def execute (f : τ → τ) : Connection τ Unit :=
  fun db => match db.nextFault with
    | none => (.ok (), db.after (f db.tables))
    | some e => (.error e, db.after db.tables)

/-- Run a statement that reads the tables. -/
def query (f : τ → α) : Connection τ α :=
  fun db => match db.nextFault with
    | none => (.ok (f db.tables), db.after db.tables)
    | some e => (.error e, db.after db.tables)

/-- Run a statement that the tables may reject. -/
def statement (f : τ → Except String (α × τ)) : Connection τ α :=
  fun db => match db.nextFault with
    | none =>
        match f db.tables with
        | .ok (a, tables) => (.ok a, db.after tables)
        | .error e => (.error e, db.after db.tables)
    | some e => (.error e, db.after db.tables)

/-- Run a query that may fail on the tables. -/
def select (f : τ → Except String α) : Connection τ α :=
  statement fun tables => (f tables).map (·, tables)

/-- The result of a computation, failed or not. -/
def attempt (c : Connection τ α) : Connection τ (Except String α) :=
  fun db => match c db with
    | (x, db') => (.ok x, db')

/-- What a computation returns and leaves. -/
def on (c : Connection τ α) (db : Db τ) : Except String α × Db τ :=
  c db

theorem bind_on (c : Connection τ α) (f : α → Connection τ β) (db : Db τ) :
  (c >>= f).on db = match c.on db with
    | (.ok a, db') => (f a).on db'
    | (.error e, db') => (.error e, db')
  := by
  simp only [on, bind, ExceptT.bind, ExceptT.mk, StateT.bind, ExceptT.bindCont]
  rcases c db with ⟨e | a, db'⟩
  · rfl
  · rfl

theorem bind_on_ok {c : Connection τ α} {f : α → Connection τ β} {db db' : Db τ} {a : α}
    (h : c.on db = (.ok a, db')) :
  (c >>= f).on db = (f a).on db'
  := by
  rw [bind_on, h]

theorem bind_on_error {c : Connection τ α} {f : α → Connection τ β} {db db' : Db τ} {e : String}
    (h : c.on db = (.error e, db')) :
  (c >>= f).on db = (.error e, db')
  := by
  rw [bind_on, h]

theorem bind_on_eq_ok {c : Connection τ α} {f : α → Connection τ β} {db db'' : Db τ} {b : β} :
  (c >>= f).on db = (.ok b, db'') ↔
    ∃ a db', c.on db = (.ok a, db') ∧ (f a).on db' = (.ok b, db'')
  := by
  rw [bind_on]
  rcases c.on db with ⟨e | a, db'⟩
  · simp
  · simp

theorem execute_on_ok {f : τ → τ} {db : Db τ} (h : db.nextFault = none) :
  (execute f).on db = (.ok (), db.after (f db.tables))
  := by
  simp only [on, execute, h]

theorem execute_on_error {f : τ → τ} {db : Db τ} {e : String} (h : db.nextFault = some e) :
  (execute f).on db = (.error e, db.after db.tables)
  := by
  simp only [on, execute, h]

theorem query_on_ok {f : τ → α} {db : Db τ} (h : db.nextFault = none) :
  (query f).on db = (.ok (f db.tables), db.after db.tables)
  := by
  simp only [on, query, h]

theorem query_on_error {f : τ → α} {db : Db τ} {e : String} (h : db.nextFault = some e) :
  (query f).on db = (.error e, db.after db.tables)
  := by
  simp only [on, query, h]

theorem statement_on {f : τ → Except String (α × τ)} {db : Db τ} (h : db.nextFault = none) :
  (statement f).on db = match f db.tables with
    | .ok (a, tables) => (.ok a, db.after tables)
    | .error e => (.error e, db.after db.tables)
  := by
  simp only [on, statement, h]
  rcases f db.tables with e | ⟨a, tables⟩
  · rfl
  · rfl

theorem statement_on_error {f : τ → Except String (α × τ)} {db : Db τ} {e : String}
    (h : db.nextFault = some e) :
  (statement f).on db = (.error e, db.after db.tables)
  := by
  simp only [on, statement, h]

theorem select_on {f : τ → Except String α} {db : Db τ} (h : db.nextFault = none) :
  (select f).on db = (f db.tables, db.after db.tables)
  := by
  rw [select, statement_on h]
  rcases f db.tables with e | a
  · rfl
  · rfl

/-- A statement that fails leaves the tables. -/
theorem tables_of_statement_error {f : τ → Except String (α × τ)} {db db' : Db τ} {e : String}
    (h : (statement f).on db = (.error e, db')) :
  db'.tables = db.tables
  := by
  cases hfault : db.nextFault with
  | some e' =>
      rw [statement_on_error hfault] at h
      rw [← (Prod.mk.inj h).2, Db.after_tables]
  | none =>
      rw [statement_on hfault] at h
      rcases hf : f db.tables with e' | ⟨a, tables⟩
      · rw [hf] at h
        rw [← (Prod.mk.inj h).2, Db.after_tables]
      · rw [hf] at h
        cases (Prod.mk.inj h).1

/-- A query leaves the tables, failed or not. -/
theorem tables_of_select {f : τ → Except String α} {db db' : Db τ} {x : Except String α}
    (h : (select f).on db = (x, db')) :
  db'.tables = db.tables
  := by
  cases hfault : db.nextFault with
  | some e' =>
      rw [select, statement_on_error hfault] at h
      rw [← (Prod.mk.inj h).2, Db.after_tables]
  | none =>
      rw [select_on hfault] at h
      rw [← (Prod.mk.inj h).2, Db.after_tables]

theorem attempt_on (c : Connection τ α) (db : Db τ) :
  (attempt c).on db = (.ok (c.on db).1, (c.on db).2)
  := rfl

/-- A query that succeeds answers from the tables and leaves them. -/
theorem query_on_eq_ok {f : τ → α} {db db' : Db τ} {a : α} (h : (query f).on db = (.ok a, db')) :
  a = f db.tables ∧ db'.tables = db.tables
  := by
  cases hfault : db.nextFault with
  | some e =>
      rw [query_on_error hfault] at h
      cases h
  | none =>
      rw [query_on_ok hfault] at h
      cases h
      exact ⟨rfl, rfl⟩

/-- A statement that succeeds made its change. -/
theorem execute_on_eq_ok {f : τ → τ} {db db' : Db τ} {a : Unit}
    (h : (execute f).on db = (.ok a, db')) :
  db'.tables = f db.tables
  := by
  cases hfault : db.nextFault with
  | some e =>
      rw [execute_on_error hfault] at h
      cases h
  | none =>
      rw [execute_on_ok hfault] at h
      rw [← (Prod.mk.inj h).2, Db.after_tables]

theorem statement_on_eq_ok {f : τ → Except String (α × τ)} {db db' : Db τ} {a : α}
    (h : (statement f).on db = (.ok a, db')) :
  f db.tables = .ok (a, db'.tables)
  := by
  cases hfault : db.nextFault with
  | some e =>
      rw [statement_on_error hfault] at h
      cases h
  | none =>
      rw [statement_on hfault] at h
      rcases hf : f db.tables with e | ⟨a', tables⟩
      · rw [hf] at h
        cases h
      · rw [hf] at h
        cases h
        rfl

/-! #### What a computation maintains -/

/-- Whether its statements fail or not, the computation keeps a property of the tables; on a
reliable database none fails later either. -/
def Maintains (P : τ → Prop) (c : Connection τ α) : Prop :=
  ∀ db, (P db.tables → P (c.on db).2.tables) ∧ (db.Reliable → (c.on db).2.Reliable)

section Maintains

variable {P : τ → Prop}

theorem maintains_execute {f : τ → τ} (h : ∀ tables, P tables → P (f tables)) :
  Maintains P (execute f)
  := by
  intro db
  cases hfault : db.nextFault with
  | none =>
      rw [execute_on_ok hfault]
      exact ⟨h _, fun hdb => hdb.after _⟩
  | some e =>
      rw [execute_on_error hfault]
      exact ⟨id, fun hdb => hdb.after _⟩

theorem maintains_statement {f : τ → Except String (α × τ)}
    (h : ∀ tables a tables', P tables → f tables = .ok (a, tables') → P tables') :
  Maintains P (statement f)
  := by
  intro db
  cases hfault : db.nextFault with
  | none =>
      rw [statement_on hfault]
      cases hf : f db.tables with
      | error e => exact ⟨id, fun hdb => hdb.after _⟩
      | ok result => exact ⟨fun hP => h _ result.1 result.2 hP hf, fun hdb => hdb.after _⟩
  | some e =>
      rw [statement_on_error hfault]
      exact ⟨id, fun hdb => hdb.after _⟩

theorem maintains_select {f : τ → Except String α} :
  Maintains P (select f)
  := by
  apply maintains_statement
  intro tables a tables' hP hf
  cases hresult : f tables with
  | error e =>
      rw [hresult] at hf
      cases hf
  | ok a' =>
      rw [hresult] at hf
      cases hf
      apply hP

theorem maintains_pure (a : α) :
  Maintains P (pure a)
  := fun _ => ⟨id, id⟩

theorem maintains_query {f : τ → α} :
  Maintains P (query f)
  := by
  intro db
  cases hfault : db.nextFault with
  | none =>
      rw [query_on_ok hfault]
      exact ⟨id, fun hdb => hdb.after _⟩
  | some e =>
      rw [query_on_error hfault]
      exact ⟨id, fun hdb => hdb.after _⟩

/-- After a query none of the later statements fails, if none does before. -/
theorem reliable_of_query {f : τ → α} {db db' : Db τ} {x : Except String α}
    (h : (query f).on db = (x, db')) (hdb : db.Reliable) :
  db'.Reliable
  := by
  have hafter := (maintains_query (P := fun _ => True) (f := f) db).2 hdb
  rw [h] at hafter
  apply hafter

theorem Maintains.attempt {c : Connection τ α} (h : Maintains P c) :
  Maintains P (attempt c)
  := by
  intro db
  rw [attempt_on]
  apply h db

theorem Maintains.bind {c : Connection τ α} {f : α → Connection τ β} (h : Maintains P c)
    (hf : ∀ a, Maintains P (f a)) :
  Maintains P (c >>= f)
  := by
  intro db
  have hfirst := h db
  rw [bind_on]
  cases hon : c.on db with
  | mk x db' =>
      rw [hon] at hfirst
      cases x with
      | error e => apply hfirst
      | ok a =>
          exact ⟨fun hP => (hf a db').1 (hfirst.1 hP), fun hdb => (hf a db').2 (hfirst.2 hdb)⟩

end Maintains

/-! #### Reliable computations -/

/-- On a reliable database with tables of `P`, the computation leaves it reliable, with tables
of `Q a` when it returns `a` and of `E` when it fails. -/
def Triple (P : τ → Prop) (c : Connection τ α) (Q : α → τ → Prop) (E : τ → Prop) : Prop :=
  ∀ db x db', db.Reliable → P db.tables → c.on db = (x, db') →
    db'.Reliable ∧ (∀ a, x = .ok a → Q a db'.tables) ∧ ∀ e, x = .error e → E db'.tables

variable {P E : τ → Prop} {Q : α → τ → Prop} {Q' : β → τ → Prop}

theorem Triple.bind {c : Connection τ α} {f : α → Connection τ β} (hc : Triple P c Q E)
    (hf : ∀ a, Triple (Q a) (f a) Q' E) :
  Triple P (c >>= f) Q' E
  := by
  intro db x db'' hreliable hP hon
  rw [bind_on] at hon
  rcases hfirst : c.on db with ⟨e | a, db'⟩
  · rw [hfirst] at hon
    obtain ⟨rfl, rfl⟩ := Prod.mk.inj hon
    obtain ⟨hdb, -, herror⟩ := hc db _ _ hreliable hP hfirst
    use hdb
    constructor
    · rintro b ⟨⟩
    · intro e' _
      apply herror e rfl
  · rw [hfirst] at hon
    obtain ⟨hdb, hok, -⟩ := hc db _ _ hreliable hP hfirst
    apply hf a db' x db'' hdb (hok a rfl) hon

theorem triple_execute {f : τ → τ} {Q : Unit → τ → Prop} (h : ∀ tables, P tables → Q () (f tables)) :
  Triple P (execute f) Q E
  := by
  intro db x db' hreliable hP hon
  rw [execute_on_ok hreliable.nextFault] at hon
  obtain ⟨rfl, rfl⟩ := Prod.mk.inj hon
  use hreliable.after _
  constructor
  · rintro a ⟨⟩
    apply h _ hP
  · rintro e ⟨⟩

/-- A statement that the tables reject leaves them. -/
theorem triple_statement {f : τ → Except String (α × τ)}
    (hok : ∀ tables a tables', P tables → f tables = .ok (a, tables') → Q a tables')
    (herror : ∀ tables, P tables → E tables) :
  Triple P (statement f) Q E
  := by
  intro db x db' hreliable hP hon
  rw [statement_on hreliable.nextFault] at hon
  rcases hf : f db.tables with e | ⟨a, tables⟩
  · rw [hf] at hon
    obtain ⟨rfl, rfl⟩ := Prod.mk.inj hon
    use hreliable.after _
    constructor
    · rintro a ⟨⟩
    · intro _ _
      apply herror _ hP
  · rw [hf] at hon
    obtain ⟨rfl, rfl⟩ := Prod.mk.inj hon
    use hreliable.after _
    constructor
    · rintro b ⟨⟩
      apply hok _ a tables hP hf
    · rintro e ⟨⟩

/-- A query that may fail leaves the tables. -/
theorem triple_select {f : τ → Except String α} (herror : ∀ tables, P tables → E tables) :
  Triple P (select f) (fun a tables => P tables ∧ f tables = .ok a) E
  := by
  apply triple_statement
  · intro tables a tables' hP hf
    rcases hresult : f tables with e | b
    · rw [hresult] at hf
      cases hf
    · rw [hresult] at hf
      obtain ⟨rfl, rfl⟩ := Prod.mk.inj (Except.ok.inj hf)
      exact ⟨hP, hresult⟩
  · apply herror

end Connection

/-! ### Rows inserted one by one -/

section InsertAll

variable {ρ : Type}

/-- Insert rows one by one. -/
def insertAll : List ρ → Connection (List ρ) Unit
  | [] => pure ()
  | r :: rs => do
      Connection.execute (· ++ [r])
      insertAll rs

theorem insertAll_append (rs rs' : List ρ) :
  insertAll (rs ++ rs') = (do insertAll rs; insertAll rs')
  := by
  induction rs with
  | nil => simp [insertAll]
  | cons r rs ih => simp [insertAll, ih]

/-- Inserting rows leaves them all, or fails and leaves a proper prefix of them. -/
theorem insertAll_on (rs : List ρ) (db : Db (List ρ)) :
  (∃ db', (insertAll rs).on db = (.ok (), db') ∧ db'.tables = db.tables ++ rs)
    ∨ ∃ e db' inserted missing, (insertAll rs).on db = (.error e, db')
      ∧ rs = inserted ++ missing ∧ missing ≠ [] ∧ db'.tables = db.tables ++ inserted
  := by
  induction rs generalizing db with
  | nil =>
      apply Or.inl
      exact ⟨db, rfl, (List.append_nil _).symm⟩
  | cons r rs ih =>
      rw [insertAll]
      cases hfault : db.nextFault with
      | some e =>
          have hinsert := Connection.execute_on_error (f := (· ++ [r])) hfault
          rw [Connection.bind_on_error hinsert]
          apply Or.inr
          exact ⟨e, _, [], r :: rs, rfl, rfl, List.cons_ne_nil _ _, (List.append_nil _).symm⟩
      | none =>
          have hinsert := Connection.execute_on_ok (f := (· ++ [r])) hfault
          rw [Connection.bind_on_ok hinsert]
          rcases ih (db.after (db.tables ++ [r])) with ⟨db', hrest, htables⟩ | hrest
          · apply Or.inl
            use db', hrest
            rw [htables, Db.after_tables, List.append_assoc, List.singleton_append]
          · obtain ⟨e, db', inserted, missing, hrest, rfl, hmissing, htables⟩ := hrest
            apply Or.inr
            use e, db', r :: inserted, missing, hrest
            rw [htables, Db.after_tables, List.append_assoc, List.singleton_append]
            exact ⟨rfl, hmissing, rfl⟩

/-- When no statement fails, all rows are inserted. -/
theorem insertAll_on_reliable (rs : List ρ) {db : Db (List ρ)} (h : db.Reliable) :
  ∃ db', (insertAll rs).on db = (.ok (), db') ∧ db'.Reliable ∧ db'.tables = db.tables ++ rs
  := by
  induction rs generalizing db with
  | nil => exact ⟨db, rfl, h, (List.append_nil _).symm⟩
  | cons r rs ih =>
      rw [insertAll, Connection.bind_on_ok (Connection.execute_on_ok h.nextFault)]
      obtain ⟨db', hrest, hreliable, htables⟩ := ih (h.after (db.tables ++ [r]))
      use db', hrest, hreliable
      rw [htables, Db.after_tables, List.append_assoc, List.singleton_append]

end InsertAll

/-! ### Rows by key -/

/-- Two tables with the same rows at every key have the same rows. -/
theorem perm_of_filter_key {κ ρ : Type} [DecidableEq κ] [DecidableEq ρ] (key : ρ → κ)
    {xs ys : List ρ}
    (h : ∀ k, (xs.filter (fun r => key r = k)).Perm (ys.filter (fun r => key r = k))) :
  xs.Perm ys
  := by
  rw [List.perm_iff_count]
  intro r
  have hcount := (h (key r)).count_eq r
  rw [List.count_filter (by simp), List.count_filter (by simp)] at hcount
  apply hcount

/-! ### Order -/

/-- The order in which a query meets the rows it selects. -/
structure Scan (ρ : Type) where
  order : List ρ → List ρ
  perm : ∀ rows, (order rows).Perm rows

namespace Scan

variable {ρ : Type}

/-- Rows are met in the order of their insertion. -/
def inserted : Scan ρ :=
  ⟨id, fun _ => List.Perm.refl _⟩

/-- The last row inserted is met first. -/
def reversed : Scan ρ :=
  ⟨List.reverse, List.reverse_perm⟩

/-- `ORDER BY`, for the order `le` of its terms. -/
def orderBy (scan : Scan ρ) (le : ρ → ρ → Bool) (rows : List ρ) : List ρ :=
  (scan.order rows).mergeSort le

theorem perm_orderBy (scan : Scan ρ) (le : ρ → ρ → Bool) (rows : List ρ) :
  (scan.orderBy le rows).Perm rows
  := (List.mergeSort_perm _ _).trans (scan.perm rows)

theorem mem_orderBy {scan : Scan ρ} {le : ρ → ρ → Bool} {rows : List ρ} {r : ρ} :
  r ∈ scan.orderBy le rows ↔ r ∈ rows
  := (scan.perm_orderBy le rows).mem_iff

section OrderBy

variable {le : ρ → ρ → Bool} (htrans : ∀ a b c, le a b → le b c → le a c)
  (htotal : ∀ a b, le a b || le b a)

include htrans htotal

theorem pairwise_orderBy (scan : Scan ρ) (rows : List ρ) :
  (scan.orderBy le rows).Pairwise (fun a b => le a b)
  := List.pairwise_mergeSort htrans htotal _

/-- The first row of an `ORDER BY` is a least one. -/
theorem le_of_head?_orderBy {scan : Scan ρ} {rows : List ρ} {r : ρ}
    (h : (scan.orderBy le rows).head? = some r) :
  ∀ r' ∈ rows, le r r'
  := by
  intro r' hr'
  have hsorted := scan.pairwise_orderBy htrans htotal rows
  obtain ⟨rest, hrest⟩ := List.head?_eq_some_iff.mp h
  rw [← (scan.perm_orderBy le rows).mem_iff, hrest] at hr'
  rw [hrest] at hsorted
  rcases List.mem_cons.mp hr' with rfl | hr'
  · have hself := htotal r' r'
    rw [Bool.or_self] at hself
    apply hself
  · apply (List.pairwise_cons.mp hsorted).1 r' hr'

end OrderBy

/-- Rows in the order of a relation between them. -/
theorem pairwise_orderBy_rel {r : ρ → ρ → Prop} [DecidableRel r]
    (htrans : ∀ a b c, r a b → r b c → r a c) (htotal : ∀ a b, r a b ∨ r b a) (scan : Scan ρ)
    (rows : List ρ) :
  (scan.orderBy (fun a b => r a b) rows).Pairwise r
  := by
  have hsorted : (scan.orderBy (fun a b => r a b) rows).Pairwise (fun a b => decide (r a b)) := by
    apply scan.pairwise_orderBy
    · intro a b c hab hbc
      apply decide_eq_true (htrans a b c (of_decide_eq_true hab) (of_decide_eq_true hbc))
    · intro a b
      rw [Bool.or_eq_true, decide_eq_true_iff, decide_eq_true_iff]
      apply htotal
  apply hsorted.imp
  intro a b hab
  apply of_decide_eq_true hab

/-- The first row that is met, when there are no two different ones. -/
theorem head?_order (scan : Scan ρ) {rows : List ρ} (h : ∀ a ∈ rows, ∀ b ∈ rows, a = b) {r : ρ} :
  (scan.order rows).head? = some r ↔ r ∈ rows
  := by
  rw [← (scan.perm rows).mem_iff]
  constructor
  · apply List.mem_of_head?
  · intro hr
    cases hhead : (scan.order rows).head? with
    | none =>
        rw [List.head?_eq_none_iff.mp hhead] at hr
        cases hr
    | some r' =>
        have hr' := List.mem_of_head? hhead
        rw [(scan.perm rows).mem_iff] at hr hr'
        rw [h r' hr' r hr]

/-- A row comes first when it is among those selected. -/
def first [DecidableEq ρ] (r : ρ) : Scan ρ where
  order rows := if r ∈ rows then r :: rows.erase r else rows
  perm rows := by
    split
    case isTrue hr => exact (List.perm_cons_erase hr).symm
    case isFalse hr => exact List.Perm.refl rows

/-- Ties are broken by the rows alone: the same rows are met in the same order. -/
def Canonical (scan : Scan ρ) : Prop :=
  ∀ rows rows' : List ρ, rows.Perm rows' → scan.order rows = scan.order rows'

/-- The rows are the same, and queries that select among them meet them in the same order. -/
structure Agree (scan : Scan ρ) (rows rows' : List ρ) : Prop where
  perm : rows.Perm rows'
  order : ∀ p : ρ → Bool, scan.order (rows.filter p) = scan.order (rows'.filter p)

theorem Agree.symm {scan : Scan ρ} {rows rows' : List ρ} (h : scan.Agree rows rows') :
  scan.Agree rows' rows
  := ⟨h.perm.symm, fun p => (h.order p).symm⟩

theorem Agree.filter {scan : Scan ρ} {rows rows' : List ρ} (h : scan.Agree rows rows')
    (p : ρ → Bool) :
  scan.Agree (rows.filter p) (rows'.filter p)
  := by
  constructor
  · apply h.perm.filter
  · intro q
    rw [List.filter_filter, List.filter_filter]
    apply h.order

theorem Agree.order_eq {scan : Scan ρ} {rows rows' : List ρ} (h : scan.Agree rows rows') :
  scan.order rows = scan.order rows'
  := by
  have hall := h.order (fun _ => true)
  rw [List.filter_true, List.filter_true] at hall
  apply hall

theorem Agree.orderBy_eq {scan : Scan ρ} {rows rows' : List ρ} (h : scan.Agree rows rows')
    (le : ρ → ρ → Bool) :
  scan.orderBy le rows = scan.orderBy le rows'
  := by
  rw [Scan.orderBy, Scan.orderBy, h.order_eq]

/-- When ties are broken by the rows alone, the same rows are met in the same order. -/
theorem Canonical.agree {scan : Scan ρ} (h : scan.Canonical) {rows rows' : List ρ}
    (hperm : rows.Perm rows') :
  scan.Agree rows rows'
  := by
  constructor
  · apply hperm
  · intro p
    apply h _ _ (hperm.filter p)

/-- An order of rows chosen once for each multiset of them. -/
noncomputable def chosen : Scan ρ where
  order rows := (Multiset.ofList rows).toList
  perm rows := Multiset.coe_eq_coe.mp (Multiset.coe_toList (Multiset.ofList rows))

theorem canonical_chosen :
  (chosen : Scan ρ).Canonical
  := by
  intro rows rows' hperm
  have hsame : Multiset.ofList rows = Multiset.ofList rows' := Multiset.coe_eq_coe.mpr hperm
  simp only [chosen, hsame]

end Scan

/-- `LIMIT`; a negative one is none. -/
def limit {ρ : Type} (n : ℤ) (rows : List ρ) : List ρ :=
  if n < 0 then rows else rows.take n.toNat

@[simp]
theorem limit_zero {ρ : Type} (rows : List ρ) :
  limit 0 rows = []
  := rfl

theorem limit_sublist {ρ : Type} (n : ℤ) (rows : List ρ) :
  (limit n rows).Sublist rows
  := by
  rw [limit]
  split
  · apply List.Sublist.refl
  · apply List.take_sublist

/-- `OFFSET`; a negative one is none. -/
def offset {ρ : Type} (n : ℤ) (rows : List ρ) : List ρ :=
  rows.drop n.toNat

/-- The cast `n as i64` of a parameter. -/
def asI64 (n : ℕ) : ℤ :=
  Int.bmod n (2 ^ 64)

/-- The cast keeps the last 64 bits, of which the first is the sign. -/
theorem asI64_eq (n : ℕ) :
  asI64 n = if (n : ℤ) % 2 ^ 64 < 2 ^ 63 then (n : ℤ) % 2 ^ 64 else (n : ℤ) % 2 ^ 64 - 2 ^ 64
  := rfl

/-! ### LIKE -/

/-- ASCII letters match in either case. -/
def foldCase (c : Char) : Char :=
  c.toLower

/-- A text ends for SQLite at its first NUL. -/
def cString (text : String) : List Char :=
  text.toList.takeWhile (· != '\x00')

/-- Match a text against a pattern: `%` stands for any characters and `_` for one. -/
def likeChars : List Char → List Char → Bool
  | [], text => text.isEmpty
  | p :: pattern, text =>
      if p = '%' then text.tails.any (likeChars pattern)
      else
        match text with
        | [] => false
        | c :: text => (p = '_' || foldCase p == foldCase c) && likeChars pattern text

/-- The operator `text LIKE pattern`. -/
def like (pattern text : String) : Bool :=
  likeChars (cString pattern) (cString text)

/-- The longest pattern `LIKE` accepts, in bytes. -/
def maxLikePatternLength : ℕ :=
  50000

def patternTooComplex : String :=
  "LIKE or GLOB pattern too complex"

/-- The operator `text LIKE pattern`, which fails on a pattern that is too long. -/
def likeOrFail (pattern text : String) : Except String Bool :=
  if maxLikePatternLength < pattern.utf8ByteSize then .error patternTooComplex
  else .ok (like pattern text)

end Sql
