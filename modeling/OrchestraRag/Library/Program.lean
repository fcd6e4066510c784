import Mathlib.Data.List.Basic
import Mathlib.Logic.Relation

/-!
# Programs over atomic operations

A `Program Op Ans α` performs operations of `Op`, waits for the answer `Ans op` of each,
and returns an `α`.  The operations are the atomic steps of the program: what an
operation does to a state and what it answers is given by a `Semantics`, a relation, so
that an answer may depend on the environment.

* `Program.Exec` runs one program from its start to its result.
* `Pool.Run` runs any number of programs at once; each step is one operation of one of
  them, and a guard restricts which steps a run may take.

A property that holds at the start and is kept by every step holds at the end of every
run (`Exec.invariant`, `Pool.Run.invariant`).  It is enough that the programs keep it, each on its
own (`Maintains`, `Pool.Run.maintains`).
-/

universe u v w

/-- A program over operations `Op`, where `op` is answered by a value of `Ans op`. -/
inductive Program (Op : Type u) (Ans : Op → Type v) (α : Type w) where
  | ret : α → Program Op Ans α
  | step : (op : Op) → (Ans op → Program Op Ans α) → Program Op Ans α

/-- What an operation may answer in a state, and the state it may leave. -/
abbrev Semantics (Op : Type u) (Ans : Op → Type v) (σ : Type w) : Type (max u v w) :=
  (op : Op) → σ → Ans op → σ → Prop

namespace Program

variable {Op : Type u} {Ans : Op → Type v} {α β : Type w} {σ : Type*}

/-- Run a program and continue with its result. -/
protected def bind : Program Op Ans α → (α → Program Op Ans β) → Program Op Ans β
  | .ret a, f => f a
  | .step op k, f => .step op (fun x => (k x).bind f)

instance : Monad (Program Op Ans) where
  pure := .ret
  bind := Program.bind

/-- The program that performs `op` and returns its answer. -/
def call (op : Op) : Program Op Ans (Ans op) :=
  .step op .ret

/-- The operation a program performs next. -/
def next : Program Op Ans α → Option Op
  | .ret _ => none
  | .step op _ => some op

@[simp]
theorem step_bind (op : Op) (k : Ans op → Program Op Ans α) (f : α → Program Op Ans β) :
  step op k >>= f = step op (fun x => k x >>= f)
  := rfl

theorem map_id (p : Program Op Ans α) :
  id <$> p = p
  := by
  induction p with
  | ret a => rfl
  | step op k ih =>
      apply congrArg (step op)
      funext x
      apply ih x

theorem bind_bind {γ : Type w} (p : Program Op Ans α) (f : α → Program Op Ans β)
    (g : β → Program Op Ans γ) :
  p >>= f >>= g = p >>= fun a => f a >>= g
  := by
  induction p with
  | ret a => rfl
  | step op k ih =>
      apply congrArg (step op)
      funext x
      apply ih x

instance : LawfulMonad (Program Op Ans) :=
  LawfulMonad.mk' _ map_id (fun _ _ => rfl) bind_bind

/-! ### One program -/

variable (R : Semantics Op Ans σ)

/-- `Exec R p s a s'`: the program `p` started in `s` may return `a` and leave `s'`. -/
inductive Exec : Program Op Ans α → σ → α → σ → Prop
  | ret {a : α} {s : σ} : Exec (.ret a) s a s
  | step {op : Op} {k : Ans op → Program Op Ans α} {s s' s'' : σ} {x : Ans op} {a : α} :
      R op s x s' → Exec (k x) s' a s'' → Exec (.step op k) s a s''

variable {R}

theorem exec_ret {a b : α} {s s' : σ} :
  Exec R (.ret a) s b s' ↔ b = a ∧ s' = s
  := by
  constructor
  · rintro ⟨⟩
    exact ⟨rfl, rfl⟩
  · rintro ⟨rfl, rfl⟩
    apply Exec.ret

theorem exec_step {op : Op} {k : Ans op → Program Op Ans α} {s s'' : σ} {a : α} :
  Exec R (.step op k) s a s'' ↔ ∃ x s', R op s x s' ∧ Exec R (k x) s' a s''
  := by
  constructor
  · rintro (_ | ⟨hR, hk⟩)
    exact ⟨_, _, hR, hk⟩
  · rintro ⟨x, s', hR, hk⟩
    apply Exec.step hR hk

theorem exec_bind {p : Program Op Ans α} {f : α → Program Op Ans β} {s s'' : σ} {b : β} :
  Exec R (p >>= f) s b s'' ↔ ∃ a s', Exec R p s a s' ∧ Exec R (f a) s' b s''
  := by
  induction p generalizing s with
  | ret a =>
      constructor
      · intro h
        exact ⟨a, s, Exec.ret, h⟩
      · rintro ⟨a', s', h, hf⟩
        obtain ⟨rfl, rfl⟩ := exec_ret.mp h
        apply hf
  | step op k ih =>
      rw [step_bind, exec_step]
      constructor
      · rintro ⟨x, s₁, hR, h⟩
        obtain ⟨a, s', hk, hf⟩ := (ih x).mp h
        exact ⟨a, s', Exec.step hR hk, hf⟩
      · rintro ⟨a, s', h, hf⟩
        obtain ⟨x, s₁, hR, hk⟩ := exec_step.mp h
        exact ⟨x, s₁, hR, (ih x).mpr ⟨a, s', hk, hf⟩⟩

theorem exec_map {p : Program Op Ans α} {f : α → β} {s s' : σ} {b : β} :
  Exec R (f <$> p) s b s' ↔ ∃ a, Exec R p s a s' ∧ b = f a
  := by
  have hmap : f <$> p = p >>= fun a => pure (f a) := rfl
  rw [hmap, exec_bind]
  constructor
  · rintro ⟨a, s₁, h, hret⟩
    obtain ⟨rfl, rfl⟩ := exec_ret.mp hret
    exact ⟨a, h, rfl⟩
  · rintro ⟨a, h, rfl⟩
    exact ⟨a, s', h, Exec.ret⟩

/-- Every program returns when every operation has an answer in every state. -/
theorem exec_total (hR : ∀ op s, ∃ x s', R op s x s') (p : Program Op Ans α) (s : σ) :
  ∃ a s', Exec R p s a s'
  := by
  induction p generalizing s with
  | ret a => exact ⟨a, s, Exec.ret⟩
  | step op k ih =>
      obtain ⟨x, s', h⟩ := hR op s
      obtain ⟨a, s'', hk⟩ := ih x s'
      exact ⟨a, s'', Exec.step h hk⟩

/-- A property of states that every operation keeps is kept by every program. -/
theorem Exec.invariant {I : σ → Prop} (hI : ∀ op s x s', I s → R op s x s' → I s')
    {p : Program Op Ans α} {s s' : σ} {a : α} (h : Exec R p s a s') (hs : I s) :
  I s'
  := by
  induction h with
  | ret => apply hs
  | step hR _ ih => apply ih (hI _ _ _ _ hs hR)

/-- A semantics that allows more steps allows the same executions. -/
theorem Exec.mono {R' : Semantics Op Ans σ} (hR : ∀ op s x s', R op s x s' → R' op s x s')
    {p : Program Op Ans α} {s s' : σ} {a : α} (h : Exec R p s a s') :
  Exec R' p s a s'
  := by
  induction h with
  | ret => apply Exec.ret
  | step hop _ ih => apply Exec.step (hR _ _ _ _ hop) ih

/-! ### The operations of a program -/

/-- Every operation that the program may perform is one of `P`. -/
inductive Uses (P : Op → Prop) : Program Op Ans α → Prop
  | ret {a : α} : Uses P (.ret a)
  | step {op : Op} {k : Ans op → Program Op Ans α} :
      P op → (∀ x, Uses P (k x)) → Uses P (.step op k)

section Uses

variable {P : Op → Prop}

theorem uses_call {Ans : Op → Type w} {op : Op} (h : P op) :
  Uses P (call op : Program Op Ans (Ans op))
  := by
  apply Uses.step h
  intro x
  apply Uses.ret

theorem Uses.bind {p : Program Op Ans α} {f : α → Program Op Ans β} (h : Uses P p)
    (hf : ∀ a, Uses P (f a)) :
  Uses P (p >>= f)
  := by
  induction h with
  | ret => apply hf
  | step hop _ ih => apply Uses.step hop ih

theorem Uses.map {p : Program Op Ans α} (h : Uses P p) (f : α → β) :
  Uses P (f <$> p)
  := by
  have hmap : f <$> p = p >>= fun a => pure (f a) := rfl
  rw [hmap]
  apply h.bind
  intro a
  apply Uses.ret

/-- A property of states that the operations of a program keep is kept by the program. -/
theorem Exec.invariant_of_uses {R : Semantics Op Ans σ} {I : σ → Prop}
    (hI : ∀ op s x s', P op → I s → R op s x s' → I s') {p : Program Op Ans α} {s s' : σ} {a : α}
    (h : Exec R p s a s') (hp : Uses P p) (hs : I s) :
  I s'
  := by
  induction h with
  | ret => apply hs
  | step hR _ ih =>
      cases hp with
      | step hop hk => apply ih (hk _) (hI _ _ _ _ hop hs hR)

/-- A semantics that allows more steps of the operations of a program allows the same executions of
it. -/
theorem Exec.mono_of_uses {R R' : Semantics Op Ans σ}
    (hR : ∀ op s x s', P op → R op s x s' → R' op s x s') {p : Program Op Ans α} {s s' : σ} {a : α}
    (h : Exec R p s a s') (hp : Uses P p) :
  Exec R' p s a s'
  := by
  induction h with
  | ret => apply Exec.ret
  | step hop _ ih =>
      cases hp with
      | step hP hk => apply Exec.step (hR _ _ _ _ hP hop) (ih (hk _))

theorem uses_fallible_bind {ε : Type w} {x : ExceptT ε (Program Op Ans) α}
    {f : α → ExceptT ε (Program Op Ans) β} (h : Uses P x.run) (hf : ∀ a, Uses P (f a).run) :
  Uses P (x >>= f).run
  := by
  apply h.bind
  rintro (e | a)
  · apply Uses.ret
  · apply hf

end Uses

/-! ### Properties that a program maintains -/

section Maintains

variable (R)

/-- Whatever other programs do in between, as long as they maintain `I` too, every operation of the
program keeps `I`, and the value it returns satisfies `Q`. -/
inductive Maintains (I : σ → Prop) (Q : α → Prop) : Program Op Ans α → Prop
  | ret {a : α} : Q a → Maintains I Q (.ret a)
  | step {op : Op} {k : Ans op → Program Op Ans α} :
      (∀ s x s', I s → R op s x s' → I s') →
      (∀ s x s', I s → R op s x s' → Maintains I Q (k x)) → Maintains I Q (.step op k)

variable {R} {I : σ → Prop}

theorem maintains_call {Ans : Op → Type w} {R : Semantics Op Ans σ} {op : Op} {Q : Ans op → Prop}
    (h : ∀ s x s', I s → R op s x s' → I s' ∧ Q x) :
  Maintains R I Q (call op)
  := by
  apply Maintains.step
  · intro s x s' hs hR
    apply (h s x s' hs hR).1
  · intro s x s' hs hR
    apply Maintains.ret (h s x s' hs hR).2

theorem Maintains.bind {Q : α → Prop} {Q' : β → Prop} {p : Program Op Ans α}
    {f : α → Program Op Ans β} (h : Maintains R I Q p) (hf : ∀ a, Q a → Maintains R I Q' (f a)) :
  Maintains R I Q' (p >>= f)
  := by
  induction h with
  | ret ha => apply hf _ ha
  | step hI _ ih => apply Maintains.step hI ih

theorem Maintains.mono {Q Q' : α → Prop} {p : Program Op Ans α} (h : Maintains R I Q p)
    (hQ : ∀ a, Q a → Q' a) :
  Maintains R I Q' p
  := by
  induction h with
  | ret ha => apply Maintains.ret (hQ _ ha)
  | step hI _ ih => apply Maintains.step hI ih

theorem Maintains.map {Q : α → Prop} {Q' : β → Prop} {p : Program Op Ans α} {f : α → β}
    (h : Maintains R I Q p) (hf : ∀ a, Q a → Q' (f a)) :
  Maintains R I Q' (f <$> p)
  := by
  have hmap : f <$> p = p >>= fun a => pure (f a) := rfl
  rw [hmap]
  apply h.bind
  intro a ha
  apply Maintains.ret (hf a ha)

/-- An operation that answers a value. -/
theorem maintains_lift {ε : Type w} {Ans : Op → Type w} {R : Semantics Op Ans σ} {op : Op}
    {Q : Ans op → Prop} (h : ∀ s x s', I s → R op s x s' → I s' ∧ Q x) :
  Maintains R I (fun r => ∀ a, r = .ok a → Q a)
    (ExceptT.lift (call op) : ExceptT ε (Program Op Ans) (Ans op)).run
  := by
  apply (maintains_call h).map
  rintro a ha b ⟨⟩
  apply ha

/-- A fallible program goes on from its values only. -/
theorem maintains_fallible_bind {ε : Type w} {x : ExceptT ε (Program Op Ans) α}
    {f : α → ExceptT ε (Program Op Ans) β} {Q : α → Prop} {Q' : β → Prop}
    (h : Maintains R I (fun r => ∀ a, r = .ok a → Q a) x.run)
    (hf : ∀ a, Q a → Maintains R I (fun r => ∀ b, r = .ok b → Q' b) (f a).run) :
  Maintains R I (fun r => ∀ b, r = .ok b → Q' b) (x >>= f).run
  := by
  apply Maintains.bind h
  rintro (e | a) hr
  · apply Maintains.ret
    rintro b ⟨⟩
  · apply hf a (hr a rfl)

end Maintains

/-! ### Programs that may fail -/

section Fallible

variable {ε : Type w} {x : ExceptT ε (Program Op Ans) α} {f : α → ExceptT ε (Program Op Ans) β}

/-- A step of a fallible program: it goes on from a value and ends with an error. -/
theorem exec_fallible_bind {s s'' : σ} {r : Except ε β} :
  Exec R (x >>= f : ExceptT ε (Program Op Ans) β) s r s'' ↔
    (∃ a s', Exec R x s (.ok a) s' ∧ Exec R (f a) s' r s'')
      ∨ ∃ e, r = .error e ∧ Exec R x s (.error e) s''
  := by
  have hbind : Exec R (x >>= f : ExceptT ε (Program Op Ans) β) s r s'' ↔
      ∃ a s', Exec R x.run s a s' ∧ Exec R (ExceptT.bindCont f a) s' r s'' := exec_bind
  rw [hbind]
  constructor
  · rintro ⟨e | a, s', hx, hf⟩
    · obtain ⟨rfl, rfl⟩ := exec_ret.mp hf
      exact Or.inr ⟨e, rfl, hx⟩
    · exact Or.inl ⟨a, s', hx, hf⟩
  · rintro (⟨a, s', hx, hf⟩ | ⟨e, rfl, hx⟩)
    · exact ⟨.ok a, s', hx, hf⟩
    · exact ⟨.error e, s'', hx, Exec.ret⟩

theorem exec_fallible_pure {a : α} {s s' : σ} {r : Except ε α} :
  Exec R (pure a : ExceptT ε (Program Op Ans) α) s r s' ↔ r = .ok a ∧ s' = s
  := exec_ret

theorem exec_call {op : Op} {s s' : σ} {x : Ans op} :
  Exec R (call op) s x s' ↔ R op s x s'
  := by
  rw [call, exec_step]
  constructor
  · rintro ⟨x', s'', hR, hret⟩
    obtain ⟨rfl, rfl⟩ := exec_ret.mp hret
    apply hR
  · intro hR
    exact ⟨x, s', hR, Exec.ret⟩

variable (R)

/-- Started where `P` holds, the program leaves a state of `Q a` when it returns `a`, and one of
`E` when it fails. -/
def Triple (P : σ → Prop) (x : ExceptT ε (Program Op Ans) α) (Q : α → σ → Prop)
    (E : σ → Prop) : Prop :=
  ∀ s r s', P s → Exec R x.run s r s' →
    (∀ a, r = .ok a → Q a s') ∧ ∀ e, r = .error e → E s'

variable {R} {P P' E : σ → Prop} {Q Q' : α → σ → Prop} {Q₂ : β → σ → Prop}

theorem triple_pure {a : α} (h : ∀ s, P s → Q a s) :
  Triple R P (pure a : ExceptT ε (Program Op Ans) α) Q E
  := by
  intro s r s' hs hexec
  obtain ⟨rfl, rfl⟩ := exec_fallible_pure.mp hexec
  constructor
  · rintro b ⟨⟩
    apply h s' hs
  · rintro e ⟨⟩

/-- An operation that answers a value. -/
theorem triple_lift {Ans : Op → Type w} {R : Semantics Op Ans σ} {op : Op}
    {Q : Ans op → σ → Prop} (h : ∀ s a s', P s → R op s a s' → Q a s') :
  Triple R P (ExceptT.lift (call op) : ExceptT ε (Program Op Ans) (Ans op)) Q E
  := by
  intro s r s' hs hexec
  have hlift : ∃ a, Exec R (call op) s a s' ∧ r = .ok a := exec_map.mp hexec
  obtain ⟨a, hcall, rfl⟩ := hlift
  constructor
  · rintro b ⟨⟩
    apply h s a s' hs (exec_call.mp hcall)
  · rintro e ⟨⟩

theorem Triple.bind (hx : Triple R P x Q E) (hf : ∀ a, Triple R (Q a) (f a) Q₂ E) :
  Triple R P (x >>= f) Q₂ E
  := by
  intro s r s'' hs hexec
  rcases exec_fallible_bind.mp hexec with ⟨a, s', hfirst, hrest⟩ | ⟨e, rfl, hfirst⟩
  · apply hf a s' r s'' ((hx s _ s' hs hfirst).1 a rfl) hrest
  · constructor
    · rintro b ⟨⟩
    · rintro e' ⟨⟩
      apply (hx s _ s'' hs hfirst).2 e rfl

/-- The rules do not see which error a program fails with. -/
theorem Triple.mapError (h : Triple R P x Q E) (g : ε → ε) :
  Triple R P (ExceptT.mk ((fun y : Except ε α => y.mapError g) <$> x.run)) Q E
  := by
  intro s r s' hs hexec
  obtain ⟨y, hx, rfl⟩ := exec_map.mp hexec
  obtain ⟨hok, herror⟩ := h s y s' hs hx
  rcases y with e | a
  · constructor
    · rintro a ⟨⟩
    · intro e' _
      apply herror e rfl
  · constructor
    · rintro b ⟨⟩
      apply hok a rfl
    · rintro e ⟨⟩

end Fallible

end Program

/-! ### Programs at once -/

/-- A shared state and the programs still running on it. -/
structure Pool (Op : Type u) (Ans : Op → Type v) (α : Type w) (σ : Type*) where
  state : σ
  threads : List (Program Op Ans α)

namespace Pool

open Program

variable {Op : Type u} {Ans : Op → Type v} {α : Type w} {σ : Type*}

/-- Every program of the pool has returned. -/
def Returned (c : Pool Op Ans α σ) : Prop :=
  ∀ t ∈ c.threads, ∃ a, t = .ret a

theorem returned_map_ret (s : σ) (as : List α) :
  Returned (⟨s, as.map .ret⟩ : Pool Op Ans α σ)
  := by
  intro t ht
  obtain ⟨a, -, rfl⟩ := List.mem_map.mp ht
  exact ⟨a, rfl⟩

variable (R : Semantics Op Ans σ) (Guard : ℕ → Pool Op Ans α σ → Prop)

/-- `Step R i c c'`: the `i`-th program of `c` performs its next operation. -/
inductive Step : ℕ → Pool Op Ans α σ → Pool Op Ans α σ → Prop
  | mk {i : ℕ} {s s' : σ} {ts : List (Program Op Ans α)} {op : Op}
      {k : Ans op → Program Op Ans α} {x : Ans op} :
      ts[i]? = some (.step op k) → R op s x s' → Step i ⟨s, ts⟩ ⟨s', ts.set i (k x)⟩

/-- `Run R Guard c c'`: any number of steps from `c` to `c'`, each by a program that the
guard allows to move. -/
inductive Run : Pool Op Ans α σ → Pool Op Ans α σ → Prop
  | refl {c : Pool Op Ans α σ} : Run c c
  | step {i : ℕ} {c c' c'' : Pool Op Ans α σ} :
      Run c c' → Guard i c' → Step R i c' c'' → Run c c''

/-- What a step of the `i`-th program is. -/
theorem step_iff {i : ℕ} {c c' : Pool Op Ans α σ} :
  Step R i c c' ↔ ∃ op k x, c.threads[i]? = some (.step op k) ∧ R op c.state x c'.state
    ∧ c'.threads = c.threads.set i (k x)
  := by
  constructor
  · rintro ⟨hi, hR⟩
    exact ⟨_, _, _, hi, hR, rfl⟩
  · obtain ⟨s', ts'⟩ := c'
    rintro ⟨op, k, x, hi, hR, rfl⟩
    exact ⟨hi, hR⟩

/-- The guard that allows every step. -/
def anyStep : ℕ → Pool Op Ans α σ → Prop :=
  fun _ _ => True

variable {R Guard}

/-- A property of pools that every allowed step keeps is kept by every run. -/
theorem Run.invariant {I : Pool Op Ans α σ → Prop}
    (hI : ∀ i c c', I c → Guard i c → Step R i c c' → I c')
    {c c' : Pool Op Ans α σ} (h : Run R Guard c c') (hc : I c) :
  I c'
  := by
  induction h with
  | refl => apply hc
  | step _ hG hS ih => apply hI _ _ _ (ih hc) hG hS

/-- What all programs of a pool maintain holds after every run. -/
theorem Run.maintains {I : σ → Prop} {Q : α → Prop} {c c' : Pool Op Ans α σ}
    (h : Run R Guard c c') (hI : I c.state) (hthreads : ∀ t ∈ c.threads, Maintains R I Q t) :
  I c'.state ∧ ∀ t ∈ c'.threads, Maintains R I Q t
  := by
  apply @Run.invariant _ _ _ _ _ _ (fun c => I c.state ∧ ∀ t ∈ c.threads, Maintains R I Q t) _ _ _
    h ⟨hI, hthreads⟩
  rintro i c c' ⟨hc, hmaintain⟩ - hstep
  obtain ⟨op, k, x, hi, hR, hset⟩ := (step_iff R).mp hstep
  cases hmaintain _ (List.mem_of_getElem? hi) with
  | step hkeeps hrest =>
      use hkeeps _ _ _ hc hR
      intro t ht
      rw [hset] at ht
      rcases List.mem_or_eq_of_mem_set ht with hmem | rfl
      · apply hmaintain t hmem
      · apply hrest _ _ _ hc hR

/-- What the operations of all programs of a pool keep holds after every run. -/
theorem Run.invariant_of_uses {P : Op → Prop} {I : σ → Prop}
    (hI : ∀ op s x s', P op → I s → R op s x s' → I s') {c c' : Pool Op Ans α σ}
    (h : Run R Guard c c') (hc : I c.state) (hthreads : ∀ t ∈ c.threads, Uses P t) :
  I c'.state ∧ ∀ t ∈ c'.threads, Uses P t
  := by
  induction h with
  | refl => exact ⟨hc, hthreads⟩
  | step _ _ hstep ih =>
      obtain ⟨hc, huses⟩ := ih hc hthreads
      obtain ⟨op, k, x, hi, hR, hset⟩ := (step_iff R).mp hstep
      cases huses _ (List.mem_of_getElem? hi) with
      | step hop hrest =>
          use hI _ _ _ _ hop hc hR
          intro t ht
          rw [hset] at ht
          rcases List.mem_or_eq_of_mem_set ht with hmem | rfl
          · apply huses t hmem
          · apply hrest

/-- Each program of a pool may return values of its own. -/
theorem Run.maintains_each {I : σ → Prop} {Q : ℕ → α → Prop} {c c' : Pool Op Ans α σ}
    (h : Run R Guard c c') (hI : I c.state)
    (hthreads : ∀ i t, c.threads[i]? = some t → Maintains R I (Q i) t) :
  I c'.state ∧ ∀ i t, c'.threads[i]? = some t → Maintains R I (Q i) t
  := by
  induction h with
  | refl => exact ⟨hI, hthreads⟩
  | step _ _ hstep ih =>
      obtain ⟨hc, hmaintain⟩ := ih hI hthreads
      obtain ⟨op, k, x, hi, hR, hset⟩ := (step_iff R).mp hstep
      cases hmaintain _ _ hi with
      | step hkeeps hrest =>
          use hkeeps _ _ _ hc hR
          intro j t ht
          rw [hset, List.getElem?_set] at ht
          split at ht
          case isTrue hij =>
              split at ht
              · obtain rfl := Option.some.inj ht
                rw [← hij]
                apply hrest _ _ _ hc hR
              · cases ht
          case isFalse => apply hmaintain j t ht

/-- Replacing one element of a list keeps the ones that differ from it. -/
theorem mem_set_of_ne {β : Type*} {l : List β} {i : ℕ} {a b : β} (z : β) (ha : a ∈ l)
    (hi : l[i]? = some b) (hne : a ≠ b) :
  a ∈ l.set i z
  := by
  obtain ⟨j, hj, rfl⟩ := List.getElem_of_mem ha
  have hij : i ≠ j := by
    rintro rfl
    rw [List.getElem?_eq_getElem hj] at hi
    apply hne (Option.some.inj hi)
  apply List.mem_of_getElem? (i := j)
  rw [List.getElem?_set_ne hij, List.getElem?_eq_getElem hj]

/-! #### The other programs -/

/-- One of the programs other than the `i`-th. -/
def Other (ts : List (Program Op Ans α)) (i : ℕ) (t : Program Op Ans α) : Prop :=
  ∃ j, j ≠ i ∧ ts[j]? = some t

theorem Other.mem {ts : List (Program Op Ans α)} {i : ℕ} {t : Program Op Ans α}
    (h : Other ts i t) :
  t ∈ ts
  := by
  obtain ⟨j, -, hj⟩ := h
  apply List.mem_of_getElem? hj

theorem eq_or_other {ts : List (Program Op Ans α)} {i : ℕ} {t u : Program Op Ans α}
    (hi : ts[i]? = some t) (hu : u ∈ ts) :
  u = t ∨ Other ts i u
  := by
  obtain ⟨j, hj⟩ := List.mem_iff_getElem?.mp hu
  by_cases hji : j = i
  · obtain rfl := hji
    apply Or.inl (Option.some.inj (hj.symm.trans hi))
  · exact Or.inr ⟨j, hji, hj⟩

/-- After a step of the `i`-th program the others are the same. -/
theorem other_set_self {ts : List (Program Op Ans α)} {i : ℕ} {t u : Program Op Ans α} :
  Other (ts.set i t) i u ↔ Other ts i u
  := by
  constructor
  · rintro ⟨j, hji, hj⟩
    rw [List.getElem?_set_ne hji.symm] at hj
    exact ⟨j, hji, hj⟩
  · rintro ⟨j, hji, hj⟩
    rw [← List.getElem?_set_ne hji.symm] at hj
    exact ⟨j, hji, hj⟩

/-- A run that starts where another one has come to. -/
theorem Run.onwards {c c' : Pool Op Ans α σ} (_ : Run R Guard c c') :
  Run R Guard c' c'
  := Run.refl

/-- A run continues by one allowed step of its `i`-th program. -/
theorem Run.next {c : Pool Op Ans α σ} {s s' : σ} {ts ts' : List (Program Op Ans α)} {op : Op}
    {k : Ans op → Program Op Ans α} (i : ℕ) (x : Ans op) (h : Run R Guard c ⟨s, ts⟩)
    (hi : ts[i]? = some (.step op k)) (hG : Guard i ⟨s, ts⟩) (hR : R op s x s')
    (hts : ts' = ts.set i (k x)) :
  Run R Guard c ⟨s', ts'⟩
  := by
  rw [hts]
  apply Run.step h hG (Step.mk hi hR)

end Pool
