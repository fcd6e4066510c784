import Mathlib
import OrchestraRag.Library.Program

/-!
# Programs that act once

The programs of a pool share data.  Some operations leave the data and only take names that nobody
has taken; the other ones act on the data.  A program that takes names, acts at most once and then
returns may run in turn with programs of its kind: whatever a run of a pool of them leaves, they
leave when they run one after another, in the order in which they act in that run
(`linearizable`).  The order is read off the run, as a list of its steps (`Recorded`, `turns`).
-/

universe u v w

open Program

section Linearization

variable {Op : Type u} {Ans : Op → Type v} {α : Type w} {σ δ ν : Type*}

/-- A semantics in which the operations of `Local` take names and leave the data, and the other ones
act on the data and take no names. -/
structure Naming (R : Semantics Op Ans σ) (δ ν : Type*) where
  data : σ → δ
  names : σ → Set ν
  Local : Op → Prop
  taken : (op : Op) → Ans op → Set ν
  local_iff : ∀ {op s x s'}, Local op → R op s x s' →
    Disjoint (taken op x) (names s) ∧ data s' = data s ∧ names s' = names s ∪ taken op x
  exists_local : ∀ {op s x}, Local op → Disjoint (taken op x) (names s) → ∃ s', R op s x s'
  names_of_act : ∀ {op s x s'}, ¬ Local op → R op s x s' → names s' = names s
  exists_act : ∀ {op s t x s'}, ¬ Local op → R op s x s' → data t = data s →
    ∃ t', R op t x t' ∧ data t' = data s'

namespace Program

/-- The program performs operations of `Local` and at most one other one, the last. -/
inductive ActsOnce (Local : Op → Prop) : Program Op Ans α → Prop
  | ret {a : α} : ActsOnce Local (.ret a)
  | prepare {op : Op} {k : Ans op → Program Op Ans α} :
      Local op → (∀ x, ActsOnce Local (k x)) → ActsOnce Local (.step op k)
  | act {op : Op} {k : Ans op → Program Op Ans α} :
      ¬ Local op → (∀ x, ∃ a, k x = .ret a) → ActsOnce Local (.step op k)

section ActsOnce

variable {β : Type w} {Local : Op → Prop}

/-- Changing the result of a program changes none of its operations. -/
theorem ActsOnce.map {p : Program Op Ans α} (h : ActsOnce Local p) (f : α → β) :
  ActsOnce Local (f <$> p)
  := by
  induction h with
  | ret => apply ActsOnce.ret
  | prepare hlocal _ ih => apply ActsOnce.prepare hlocal ih
  | act hact hret =>
      apply ActsOnce.act hact
      intro x
      obtain ⟨a, ha⟩ := hret x
      use f a
      rw [ha]
      rfl

/-- A program may be prepared by operations of `Local`. -/
theorem ActsOnce.bind {p : Program Op Ans α} {f : α → Program Op Ans β} (h : Uses Local p)
    (hf : ∀ a, ActsOnce Local (f a)) :
  ActsOnce Local (p >>= f)
  := by
  induction h with
  | ret => apply hf
  | step hlocal _ ih => apply ActsOnce.prepare hlocal ih

theorem actsOnce_call {Ans : Op → Type w} {op : Op} (h : ¬ Local op) :
  ActsOnce Local (call op : Program Op Ans (Ans op))
  := by
  apply ActsOnce.act h
  intro x
  exact ⟨x, rfl⟩

/-- A fallible program may be prepared by operations of `Local`. -/
theorem ActsOnce.fallible_bind {ε : Type w} {x : ExceptT ε (Program Op Ans) α}
    {f : α → ExceptT ε (Program Op Ans) β} (h : Uses Local x.run)
    (hf : ∀ a, ActsOnce Local (f a).run) :
  ActsOnce Local (x >>= f).run
  := by
  apply ActsOnce.bind h
  rintro (e | a)
  · apply ActsOnce.ret
  · apply hf

/-- After a fallible program that acts, a value may be returned. -/
theorem ActsOnce.fallible_ret {ε : Type w} {x : ExceptT ε (Program Op Ans) α}
    {f : α → ExceptT ε (Program Op Ans) β} (h : ActsOnce Local x.run)
    (hf : ∀ a, ∃ r, (f a).run = .ret r) :
  ActsOnce Local (x >>= f).run
  := by
  choose g hg using hf
  have hmap : (x >>= f).run = (fun r => Except.casesOn r Except.error g) <$> x.run := by
    have hcont : ∀ r : Except ε α, ExceptT.bindCont f r
        = .ret (Except.casesOn r Except.error g) := by
      rintro (e | a)
      · rfl
      · apply hg
    have hbind : (x >>= f).run = x.run >>= ExceptT.bindCont f := rfl
    rw [hbind, funext hcont]
    rfl
  rw [hmap]
  apply h.map

end ActsOnce

/-- The program becomes another one by operations that take names. -/
inductive Prepares {R : Semantics Op Ans σ} (N : Naming R δ ν) (p : Program Op Ans α) :
    Program Op Ans α → Set ν → Prop
  | refl : Prepares N p p ∅
  | next {op : Op} {k : Ans op → Program Op Ans α} {x : Ans op} {taken : Set ν} :
      Prepares N p (.step op k) taken → N.Local op → Disjoint (N.taken op x) taken →
      Prepares N p (k x) (taken ∪ N.taken op x)

/-- A program may be prepared later, as long as nobody has taken its names. -/
theorem Prepares.exec {R : Semantics Op Ans σ} {N : Naming R δ ν} {p q : Program Op Ans α}
    {taken : Set ν} {t : σ} (h : Prepares N p q taken) (hfresh : Disjoint taken (N.names t)) :
  ∃ t', N.data t' = N.data t ∧ N.names t' = N.names t ∪ taken
    ∧ ∀ a t'', Exec R q t' a t'' → Exec R p t a t''
  := by
  induction h with
  | refl =>
      use t, rfl, (Set.union_empty _).symm
      intro a t'' hexec
      apply hexec
  | @next op k x taken hprepares hlocal hown ih =>
      rw [Set.disjoint_union_left] at hfresh
      obtain ⟨t', hdata, hnames, hexec⟩ := ih hfresh.1
      have hnew : Disjoint (N.taken op x) (N.names t') := by
        rw [hnames, Set.disjoint_union_right]
        exact ⟨hfresh.2, hown⟩
      obtain ⟨t'', hstep⟩ := N.exists_local hlocal hnew
      obtain ⟨-, hdata', hnames'⟩ := N.local_iff hlocal hstep
      use t'', hdata'.trans hdata
      constructor
      · rw [hnames', hnames, Set.union_assoc]
      · intro a s hrest
        apply hexec
        apply Exec.step hstep hrest

end Program

/-! ### Recorded runs -/

/-- A step of a run: the program that performs it, the operation, and the rest of the program. -/
structure Event (Op : Type u) (Ans : Op → Type v) (α : Type w) where
  thread : ℕ
  op : Op
  next : Program Op Ans α

/-- The program that returns with the step, and its result. -/
def Event.returned (e : Event Op Ans α) : List (ℕ × α) :=
  match e.next with
  | .ret a => [(e.thread, a)]
  | .step _ _ => []

namespace Pool

/-- A run from the pool `c` to `c'` whose steps are `events`, the first one first. -/
inductive Recorded (R : Semantics Op Ans σ) :
    Pool Op Ans α σ → List (Event Op Ans α) → Pool Op Ans α σ → Prop
  | refl {c : Pool Op Ans α σ} : Recorded R c [] c
  | step {i : ℕ} {c : Pool Op Ans α σ} {events : List (Event Op Ans α)} {s s' : σ}
      {ts : List (Program Op Ans α)} {op : Op} {k : Ans op → Program Op Ans α} {x : Ans op} :
      Recorded R c events ⟨s, ts⟩ → ts[i]? = some (.step op k) → R op s x s' →
      Recorded R c (events ++ [⟨i, op, k x⟩]) ⟨s', ts.set i (k x)⟩

/-- A recorded run has been everywhere where a part of its steps leads. -/
theorem Recorded.split {R : Semantics Op Ans σ} {c c' : Pool Op Ans α σ}
    {first rest : List (Event Op Ans α)} (h : Recorded R c (first ++ rest) c') :
  ∃ c₁, Recorded R c first c₁ ∧ Recorded R c₁ rest c'
  := by
  induction rest using List.reverseRecOn generalizing c' with
  | nil =>
      rw [List.append_nil] at h
      exact ⟨c', h, Recorded.refl⟩
  | append_singleton rest e ih =>
      rw [← List.append_assoc] at h
      generalize hevents : first ++ rest ++ [e] = events at h
      cases h with
      | refl => simp at hevents
      | step hbefore hi hR =>
          obtain ⟨rfl, he⟩ := List.append_inj' hevents rfl
          obtain rfl := List.singleton_inj.mp he
          obtain ⟨c₁, hfirst, hrest⟩ := ih hbefore
          exact ⟨c₁, hfirst, hrest.step hi hR⟩

/-- A recorded run continues by a step of its `i`-th program. -/
theorem Recorded.next {R : Semantics Op Ans σ} {c : Pool Op Ans α σ}
    {events : List (Event Op Ans α)} {s s' : σ} {ts ts' : List (Program Op Ans α)} {op : Op}
    {k : Ans op → Program Op Ans α} (i : ℕ) (x : Ans op) (h : Recorded R c events ⟨s, ts⟩)
    (hi : ts[i]? = some (.step op k)) (hR : R op s x s') (hts : ts' = ts.set i (k x)) :
  Recorded R c (events ++ [⟨i, op, k x⟩]) ⟨s', ts'⟩
  := by
  rw [hts]
  apply h.step hi hR

end Pool

/-! ### Programs in turn -/

/-- Programs of `ps` run one after another: `(i, a)` says that the `i`-th returns `a`. -/
inductive InTurn (R : Semantics Op Ans σ) (ps : List (Program Op Ans α)) :
    List (ℕ × α) → σ → σ → Prop
  | nil {s : σ} : InTurn R ps [] s s
  | snoc {runs : List (ℕ × α)} {i : ℕ} {p : Program Op Ans α} {a : α} {s s' s'' : σ} :
      InTurn R ps runs s s' → ps[i]? = some p → Exec R p s' a s'' →
      InTurn R ps (runs ++ [(i, a)]) s s''

namespace Pool

/-- The programs of a pool that have returned, each once. -/
structure HasReturned (c : Pool Op Ans α σ) (runs : List (ℕ × α)) : Prop where
  mem : ∀ i a, (i, a) ∈ runs ↔ c.threads[i]? = some (.ret a)
  nodup : (runs.map Prod.fst).Nodup

variable {R : Semantics Op Ans σ} (N : Naming R δ ν)

/-- After the programs of `runs` have run in turn to `t`, the others of the pool are prepared; the
`i`-th has taken `taken i`. -/
structure Prepared (ps : List (Program Op Ans α)) (s : σ) (c : Pool Op Ans α σ)
    (runs : List (ℕ × α)) (t : σ) (taken : ℕ → Set ν) : Prop where
  inTurn : InTurn R ps runs s t
  data : N.data t = N.data c.state
  names : N.names c.state = N.names t ∪ ⋃ i, taken i
  returned : c.HasReturned runs
  fresh : ∀ i, Disjoint (taken i) (N.names t)
  apart : ∀ i j, i ≠ j → Disjoint (taken i) (taken j)
  prepares : ∀ i q, c.threads[i]? = some q →
    ActsOnce N.Local q ∧ ∃ p, ps[i]? = some p ∧ ((∃ a, q = .ret a) ∨ Prepares N p q (taken i))

variable {N} {ps : List (Program Op Ans α)} {s t : σ} {c c' : Pool Op Ans α σ}
  {runs : List (ℕ × α)} {taken : ℕ → Set ν}

theorem HasReturned.notMem (h : c.HasReturned runs) {i : ℕ} {op : Op}
    {k : Ans op → Program Op Ans α} (hi : c.threads[i]? = some (.step op k)) :
  i ∉ runs.map Prod.fst
  := by
  intro hmem
  obtain ⟨⟨j, a⟩, hrun, rfl⟩ := List.mem_map.mp hmem
  cases hi.symm.trans ((h.mem j a).mp hrun)

/-- A program that goes on has not returned. -/
theorem HasReturned.goes_on (h : c.HasReturned runs) {i : ℕ} {op op' : Op}
    {k : Ans op → Program Op Ans α} {k' : Ans op' → Program Op Ans α}
    (hi : c.threads[i]? = some (.step op k)) (hset : c'.threads = c.threads.set i (.step op' k')) :
  c'.HasReturned runs
  := by
  constructor
  · intro j a
    rw [h.mem, hset]
    by_cases hji : j = i
    · rw [hji, hi, List.getElem?_set_self (List.getElem?_eq_some_iff.mp hi).1]
      simp
    · rw [List.getElem?_set_ne (Ne.symm hji)]
  · apply h.nodup

/-- A program that returns is the last one that has. -/
theorem HasReturned.snoc (h : c.HasReturned runs) {i : ℕ} {op : Op}
    {k : Ans op → Program Op Ans α} {a : α} (hi : c.threads[i]? = some (.step op k))
    (hset : c'.threads = c.threads.set i (.ret a)) :
  c'.HasReturned (runs ++ [(i, a)])
  := by
  constructor
  · intro j b
    rw [List.mem_append, List.mem_singleton, h.mem, hset, Prod.mk.injEq]
    by_cases hji : j = i
    · rw [hji, hi, List.getElem?_set_self (List.getElem?_eq_some_iff.mp hi).1]
      simp [eq_comm]
    · rw [List.getElem?_set_ne (Ne.symm hji)]
      simp [hji]
  · rw [List.map_append, List.nodup_append]
    refine ⟨h.nodup, List.nodup_singleton i, ?_⟩
    rintro j hj i' hi' rfl
    obtain rfl := List.mem_singleton.mp hi'
    apply h.notMem hi hj

/-- Of some sets the `i`-th is changed. -/
theorem mem_update {taken : ℕ → Set ν} {i : ℕ} {X : Set ν} {n : ν} :
  (∃ j, n ∈ Function.update taken i X j) ↔ n ∈ X ∨ ∃ j, j ≠ i ∧ n ∈ taken j
  := by
  constructor
  · rintro ⟨j, hj⟩
    by_cases hji : j = i
    · rw [hji, Function.update_self] at hj
      apply Or.inl hj
    · rw [Function.update_of_ne hji] at hj
      exact Or.inr ⟨j, hji, hj⟩
  · rintro (hX | ⟨j, hji, hj⟩)
    · use i
      rw [Function.update_self]
      apply hX
    · use j
      rw [Function.update_of_ne hji]
      apply hj

namespace Prepared

variable {i : ℕ} {op : Op} {k : Ans op → Program Op Ans α} {p : Program Op Ans α} {X : Set ν}

/-- Names that nobody has taken are of no program. -/
theorem disjoint_taken (h : Prepared N ps s c runs t taken) (hX : Disjoint X (N.names c.state)) :
  Disjoint X (N.names t) ∧ ∀ i, Disjoint X (taken i)
  := by
  rw [h.names, Set.disjoint_union_right] at hX
  use hX.1
  intro i
  apply hX.2.mono_right (Set.subset_iUnion taken i)

/-- A program takes names and goes on. -/
theorem goes_on (h : Prepared N ps s c runs t taken) {op' : Op}
    {k' : Ans op' → Program Op Ans α} (hi : c.threads[i]? = some (.step op k))
    (hset : c'.threads = c.threads.set i (.step op' k'))
    (hdata : N.data c'.state = N.data c.state)
    (hnames : N.names c'.state = N.names c.state ∪ X) (hX : Disjoint X (N.names c.state))
    (hacts : ActsOnce N.Local (.step op' k')) (hp : ps[i]? = some p)
    (hprepares : Prepares N p (.step op' k') (taken i ∪ X)) :
  Prepared N ps s c' runs t (Function.update taken i (taken i ∪ X))
  := by
  obtain ⟨hXt, hXtaken⟩ := h.disjoint_taken hX
  constructor
  · apply h.inTurn
  · rw [hdata, h.data]
  · rw [hnames, h.names]
    ext n
    simp only [Set.mem_union, Set.mem_iUnion, mem_update]
    grind
  · apply h.returned.goes_on hi hset
  · intro j
    by_cases hji : j = i
    · rw [hji, Function.update_self, Set.disjoint_union_left]
      exact ⟨h.fresh i, hXt⟩
    · rw [Function.update_of_ne hji]
      apply h.fresh
  · intro j j' hjj'
    by_cases hji : j = i
    · rw [hji] at hjj'
      rw [hji, Function.update_self, Function.update_of_ne hjj'.symm, Set.disjoint_union_left]
      exact ⟨h.apart i j' hjj', hXtaken j'⟩
    · rw [Function.update_of_ne hji]
      by_cases hj'i : j' = i
      · rw [hj'i, Function.update_self, Set.disjoint_union_right]
        exact ⟨h.apart j i hji, (hXtaken j).symm⟩
      · rw [Function.update_of_ne hj'i]
        apply h.apart j j' hjj'
  · intro j q hj
    rw [hset] at hj
    by_cases hji : j = i
    · rw [hji, List.getElem?_set_self (List.getElem?_eq_some_iff.mp hi).1] at hj
      obtain rfl := Option.some.inj hj
      rw [hji, Function.update_self]
      exact ⟨hacts, p, hp, Or.inr hprepares⟩
    · rw [List.getElem?_set_ne (Ne.symm hji)] at hj
      rw [Function.update_of_ne hji]
      apply h.prepares j q hj

/-- A program that has taken names runs in turn, to the data that the pool has after its last
step. -/
theorem returns (h : Prepared N ps s c runs t taken) {a : α} {t' : σ}
    (hi : c.threads[i]? = some (.step op k)) (hset : c'.threads = c.threads.set i (.ret a))
    (hnames : N.names c'.state = N.names c.state ∪ X) (hX : Disjoint X (N.names c.state))
    (hp : ps[i]? = some p) (hexec : Exec R p t a t') (hdata : N.data t' = N.data c'.state)
    (hnames' : N.names t' = N.names t ∪ (taken i ∪ X)) :
  Prepared N ps s c' (runs ++ [(i, a)]) t' (Function.update taken i ∅)
  := by
  obtain ⟨hXt, hXtaken⟩ := h.disjoint_taken hX
  constructor
  · apply InTurn.snoc h.inTurn hp hexec
  · apply hdata
  · rw [hnames, hnames', h.names]
    ext n
    simp only [Set.mem_union, Set.mem_iUnion, mem_update]
    grind
  · apply h.returned.snoc hi hset
  · intro j
    by_cases hji : j = i
    · rw [hji, Function.update_self]
      apply Set.empty_disjoint
    · rw [Function.update_of_ne hji, hnames', Set.disjoint_union_right, Set.disjoint_union_right]
      exact ⟨h.fresh j, h.apart j i hji, (hXtaken j).symm⟩
  · intro j j' hjj'
    by_cases hji : j = i
    · rw [hji, Function.update_self]
      apply Set.empty_disjoint
    · rw [Function.update_of_ne hji]
      by_cases hj'i : j' = i
      · rw [hj'i, Function.update_self]
        apply Set.disjoint_empty
      · rw [Function.update_of_ne hj'i]
        apply h.apart j j' hjj'
  · intro j q hj
    rw [hset] at hj
    by_cases hji : j = i
    · rw [hji, List.getElem?_set_self (List.getElem?_eq_some_iff.mp hi).1] at hj
      obtain rfl := Option.some.inj hj
      use ActsOnce.ret, p
      rw [hji]
      exact ⟨hp, Or.inl ⟨a, rfl⟩⟩
    · rw [List.getElem?_set_ne (Ne.symm hji)] at hj
      rw [Function.update_of_ne hji]
      apply h.prepares j q hj

/-- Whatever program makes the next step, the others stay prepared. -/
theorem step (h : Prepared N ps s c runs t taken) {x : Ans op} {s' : σ}
    (hi : c.threads[i]? = some (.step op k)) (hR : R op c.state x s') :
  ∃ t' taken', Prepared N ps s ⟨s', c.threads.set i (k x)⟩
    (runs ++ (⟨i, op, k x⟩ : Event Op Ans α).returned) t' taken'
  := by
  obtain ⟨hacts, p, hp, ⟨a, ⟨⟩⟩ | hprepares⟩ := h.prepares i _ hi
  cases hacts with
  | prepare hlocal hrest =>
      obtain ⟨hnew, hdata, hnames⟩ := N.local_iff hlocal hR
      have hnext : Prepares N p (k x) (taken i ∪ N.taken op x) :=
        hprepares.next hlocal ((h.disjoint_taken hnew).2 i)
      cases hkx : k x with
      | step op' k' =>
          rw [hkx] at hnext
          have hacts := hrest x
          rw [hkx] at hacts
          use t, Function.update taken i (taken i ∪ N.taken op x)
          rw [Event.returned, List.append_nil]
          apply h.goes_on hi rfl hdata hnames hnew hacts hp hnext
      | ret a =>
          rw [hkx] at hnext
          have hfresh : Disjoint (taken i ∪ N.taken op x) (N.names t) := by
            rw [Set.disjoint_union_left]
            exact ⟨h.fresh i, (h.disjoint_taken hnew).1⟩
          obtain ⟨t', hdata', hnames', hexec⟩ := hnext.exec hfresh
          use t', Function.update taken i ∅
          apply h.returns hi rfl hnames hnew hp (hexec a t' Exec.ret) _ hnames'
          rw [hdata', h.data, hdata]
  | act hact hret =>
      obtain ⟨a, ha⟩ := hret x
      -- The program is prepared in the turn that it has now, and acts on the same data.
      obtain ⟨t₁, hdata₁, hnames₁, hexec⟩ := hprepares.exec (h.fresh i)
      obtain ⟨t', hR', hdata'⟩ := N.exists_act hact hR (hdata₁.trans h.data)
      have hrun : Exec R (.step op k) t₁ a t' := by
        apply Exec.step hR'
        rw [ha]
        apply Exec.ret
      have hnames : N.names s' = N.names c.state ∪ ∅ := by
        rw [N.names_of_act hact hR, Set.union_empty]
      use t', Function.update taken i ∅
      rw [ha]
      apply h.returns hi rfl hnames (Set.empty_disjoint _) hp (hexec a t' hrun) hdata'
      rw [N.names_of_act hact hR', hnames₁, Set.union_empty]

/-- A program that acts returns with the same step. -/
theorem returns_of_act (h : Prepared N ps s c runs t taken)
    (hi : c.threads[i]? = some (.step op k)) (hact : ¬ N.Local op) (x : Ans op) :
  ∃ a, k x = .ret a
  := by
  cases (h.prepares i _ hi).1 with
  | prepare hlocal _ => apply absurd hlocal hact
  | act _ hret => apply hret

/-- Programs that go on from prepared ones stay prepared. -/
theorem recorded {events : List (Event Op Ans α)} (h : Prepared N ps s c runs t taken)
    (hrecorded : Recorded R c events c') :
  (∃ t' taken', Prepared N ps s c' (runs ++ events.flatMap Event.returned) t' taken')
    ∧ ∀ e ∈ events, ¬ N.Local e.op → ∃ a, e.next = .ret a
  := by
  induction hrecorded with
  | refl =>
      constructor
      · use t, taken
        rw [List.flatMap_nil, List.append_nil]
        apply h
      · rintro e ⟨⟩
  | @step i c events s' s'' ts op k x _ hi hR ih =>
      obtain ⟨⟨t', taken', hmiddle⟩, hlast⟩ := ih h
      constructor
      · obtain ⟨t'', taken'', hend⟩ := hmiddle.step hi hR
        use t'', taken''
        rw [List.flatMap_append, List.flatMap_singleton, ← List.append_assoc]
        apply hend
      · intro e he hact
        rcases List.mem_append.mp he with he | he
        · apply hlast e he hact
        · obtain rfl := List.mem_singleton.mp he
          apply hmiddle.returns_of_act hi hact

end Prepared

/-- The programs that return without an operation. -/
def returnedAtOnce (ps : List (Program Op Ans α)) : List (ℕ × α) :=
  ps.zipIdx.filterMap (fun
    | (.ret a, i) => some (i, a)
    | (.step _ _, _) => none)

theorem mem_returnedAtOnce {i : ℕ} {a : α} :
  (i, a) ∈ returnedAtOnce ps ↔ ps[i]? = some (.ret a)
  := by
  rw [returnedAtOnce, List.mem_filterMap]
  constructor
  · rintro ⟨⟨p, j⟩, hmem, hsome⟩
    cases p with
    | step op k => cases hsome
    | ret b =>
        cases hsome
        apply List.mem_zipIdx_iff_getElem?.mp hmem
  · intro hi
    exact ⟨(.ret a, i), List.mem_zipIdx_iff_getElem?.mpr hi, rfl⟩

theorem nodup_returnedAtOnce :
  ((returnedAtOnce ps).map Prod.fst).Nodup
  := by
  have hsublist : ((returnedAtOnce ps).map Prod.fst).Sublist (ps.zipIdx.map Prod.snd) := by
    rw [returnedAtOnce]
    generalize ps.zipIdx = entries
    induction entries with
    | nil => apply List.Sublist.refl
    | cons e entries ih =>
        obtain ⟨p, i⟩ := e
        cases p with
        | ret a => apply ih.cons_cons _
        | step op k => apply ih.cons
  apply List.Nodup.sublist hsublist
  apply List.nodup_zipIdx_map_snd

/-- Programs that return without an operation run in turn in any order. -/
theorem inTurn_of_ret (hruns : ∀ run ∈ runs, ps[run.1]? = some (.ret run.2)) :
  InTurn R ps runs s s
  := by
  induction runs using List.reverseRecOn with
  | nil => apply InTurn.nil
  | append_singleton runs run ih =>
      apply InTurn.snoc (ih _) (hruns run (by simp)) Exec.ret
      intro run' hrun'
      apply hruns run' (List.mem_append_left _ hrun')

theorem prepared_start (N : Naming R δ ν) (hps : ∀ p ∈ ps, ActsOnce N.Local p) :
  Prepared N ps s ⟨s, ps⟩ (returnedAtOnce ps) s (fun _ => ∅)
  := by
  constructor
  · apply inTurn_of_ret
    rintro ⟨i, a⟩ hrun
    apply mem_returnedAtOnce.mp hrun
  · rfl
  · simp
  · constructor
    · intro i a
      apply mem_returnedAtOnce
    · apply nodup_returnedAtOnce
  · intro i
    apply Set.empty_disjoint
  · intro i j _
    apply Set.empty_disjoint
  · intro i p hi
    use hps p (List.mem_of_getElem? hi), p, hi
    apply Or.inr Prepares.refl

/-- The programs that return in a run of `ps`, each where it does: those that return without an
operation first, and each of the others with its last one. -/
def turns (ps : List (Program Op Ans α)) (events : List (Event Op Ans α)) : List (ℕ × α) :=
  returnedAtOnce ps ++ events.flatMap Event.returned

theorem turns_append (events more : List (Event Op Ans α)) :
  turns ps (events ++ more) = turns ps events ++ more.flatMap Event.returned
  := by
  rw [turns, turns, List.flatMap_append, List.append_assoc]

/-- Programs that start in `s` and come to `c` by `events` may run in turn, to the same results and
data, in the order of their turns in the run; a program that acts returns with the same step, so
that this is the order in which they act. -/
structure Linearizes (N : Naming R δ ν) (ps : List (Program Op Ans α)) (s : σ)
    (events : List (Event Op Ans α)) (c : Pool Op Ans α σ) : Prop where
  inTurn : ∃ t, InTurn R ps (turns ps events) s t ∧ N.data t = N.data c.state
  returned : c.HasReturned (turns ps events)
  acting : ∀ e ∈ events, ¬ N.Local e.op → ∃ a, e.next = .ret a

/-- Programs that act once may run in turn, in the order in which they act, to the results and the
data of a run of them.  At every moment of the run they have come to the data and the results of the
first of these turns. -/
theorem linearizable (N : Naming R δ ν) (hps : ∀ p ∈ ps, ActsOnce N.Local p)
    {events : List (Event Op Ans α)} (h : Recorded R ⟨s, ps⟩ events c) :
  Linearizes N ps s events c
    ∧ ∀ first rest, events = first ++ rest → ∃ c₁, Recorded R ⟨s, ps⟩ first c₁
      ∧ Recorded R c₁ rest c ∧ Linearizes N ps s first c₁ ∧ turns ps first <+: turns ps events
  := by
  have hlinearizes : ∀ {events : List (Event Op Ans α)} {c : Pool Op Ans α σ},
      Recorded R ⟨s, ps⟩ events c → Linearizes N ps s events c := by
    intro events c h
    obtain ⟨⟨t, taken, hend⟩, hacting⟩ := (prepared_start N hps).recorded h
    exact ⟨⟨t, hend.inTurn, hend.data⟩, hend.returned, hacting⟩
  use hlinearizes h
  rintro first rest rfl
  obtain ⟨c₁, hfirst, hrest⟩ := h.split
  use c₁, hfirst, hrest, hlinearizes hfirst
  rw [turns_append]
  apply List.prefix_append

end Pool

end Linearization
