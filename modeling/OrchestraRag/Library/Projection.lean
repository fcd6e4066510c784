import OrchestraRag.Library.Program

/-!
# Programs on two states

Of two states side by side every operation acts on one (`Semantics.prod`).  Seen from the first
state a program performs the operations on it only; the others take time, and decide nothing about
which operations on the first state come next (`Program.Projects`).  Programs that run at once then
do to the first state what the programs do that they project to (`Pool.Run.project`).
-/

universe u u' v w

variable {Op : Type u} {Op' : Type u'} {Ans : Op → Type v} {Ans' : Op' → Type v}
  {α β γ : Type w} {σ τ : Type*}

/-- Operations on two states side by side. -/
def Semantics.prod (R : Semantics Op Ans σ) (R' : Semantics Op' Ans' τ) :
    Semantics (Op ⊕ Op') (Sum.elim Ans Ans') (σ × τ)
  | .inl op, s, x, s' => R op s.1 x s'.1 ∧ s'.2 = s.2
  | .inr op, s, x, s' => R' op s.2 x s'.2 ∧ s'.1 = s.1

theorem Semantics.prod_inl {R : Semantics Op Ans σ} {R' : Semantics Op' Ans' τ} {op : Op}
    {x : Ans op} {s s' : σ} {t : τ} (h : R op s x s') :
  R.prod R' (.inl op) (s, t) x (s', t)
  := ⟨h, rfl⟩

namespace Program

/-- A program on the first of two states. -/
def onFirst : Program Op Ans α → Program (Op ⊕ Op') (Sum.elim Ans Ans') α
  | .ret a => .ret a
  | .step op k => .step (.inl op) (fun x => (k x).onFirst)

/-- A program on the second of two states. -/
def onSecond : Program Op' Ans' α → Program (Op ⊕ Op') (Sum.elim Ans Ans') α
  | .ret a => .ret a
  | .step op k => .step (.inr op) (fun x => (k x).onSecond)

/-- An operation on the second of two states. -/
def second {Ans : Op → Type w} {Ans' : Op' → Type w} (op : Op') :
    Program (Op ⊕ Op') (Sum.elim Ans Ans') (Ans' op) :=
  call (Sum.inr op)

/-- On the first state the program performs the operations of the other one, and returns a value
that `Q` relates to the other one's. -/
inductive Projects (Q : α → β → Prop) :
    Program (Op ⊕ Op') (Sum.elim Ans Ans') α → Program Op Ans β → Prop
  | ret {a : α} {b : β} : Q a b → Projects Q (.ret a) (.ret b)
  | first {op : Op} {k : Ans op → Program (Op ⊕ Op') (Sum.elim Ans Ans') α}
      {l : Ans op → Program Op Ans β} :
      (∀ x, Projects Q (k x) (l x)) → Projects Q (.step (.inl op) k) (.step op l)
  | second {op : Op'} {k : Ans' op → Program (Op ⊕ Op') (Sum.elim Ans Ans') α}
      {q : Program Op Ans β} :
      (∀ x, Projects Q (k x) q) → Projects Q (.step (.inr op) k) q

variable {Q : α → β → Prop} {p : Program (Op ⊕ Op') (Sum.elim Ans Ans') α} {q : Program Op Ans β}

/-- A program on the first state projects to itself. -/
theorem projects_onFirst {Q : α → α → Prop} (h : ∀ a, Q a a) (p : Program Op Ans α) :
  Projects Q (p.onFirst : Program (Op ⊕ Op') (Sum.elim Ans Ans') α) p
  := by
  induction p with
  | ret a => apply Projects.ret (h a)
  | step op k ih => apply Projects.first ih

/-- A program on the second state projects to one that returns at once. -/
theorem projects_onSecond {b : β} (h : ∀ a, Q a b) (p : Program Op' Ans' α) :
  Projects Q (p.onSecond : Program (Op ⊕ Op') (Sum.elim Ans Ans') α) (.ret b)
  := by
  induction p with
  | ret a => apply Projects.ret (h a)
  | step op k ih => apply Projects.second ih

theorem Projects.mono {Q' : α → β → Prop} (h : Projects Q p q) (hQ : ∀ a b, Q a b → Q' a b) :
  Projects Q' p q
  := by
  induction h with
  | ret hab => apply Projects.ret (hQ _ _ hab)
  | first _ ih => apply Projects.first ih
  | second _ ih => apply Projects.second ih

/-- What is done with the result takes no operations. -/
theorem Projects.map_left {Q' : γ → β → Prop} {f : α → γ} (h : Projects Q p q)
    (hQ : ∀ a b, Q a b → Q' (f a) b) :
  Projects Q' (f <$> p) q
  := by
  induction h with
  | ret hab => apply Projects.ret (hQ _ _ hab)
  | first _ ih => apply Projects.first ih
  | second _ ih => apply Projects.second ih

theorem Projects.map_right {Q' : α → γ → Prop} {g : β → γ} (h : Projects Q p q)
    (hQ : ∀ a b, Q a b → Q' a (g b)) :
  Projects Q' p (g <$> q)
  := by
  induction h with
  | ret hab => apply Projects.ret (hQ _ _ hab)
  | first _ ih => apply Projects.first ih
  | second _ ih => apply Projects.second ih

/-- A program that has returned projects to one that has. -/
theorem Projects.returned {a : α}
    (h : Projects Q (.ret a : Program (Op ⊕ Op') (Sum.elim Ans Ans') α) q) :
  ∃ b, q = .ret b ∧ Q a b
  := by
  cases h with
  | @ret _ b hab => exact ⟨b, rfl, hab⟩

/-- On its own a program does to the first state what it does there alone. -/
theorem exec_onFirst {R : Semantics Op Ans σ} {R' : Semantics Op' Ans' τ} {p : Program Op Ans α}
    {s s' : σ × τ} {a : α} :
  Exec (R.prod R') p.onFirst s a s' ↔ Exec R p s.1 a s'.1 ∧ s'.2 = s.2
  := by
  induction p generalizing s with
  | ret b =>
      rw [onFirst, exec_ret, exec_ret]
      constructor
      · rintro ⟨rfl, rfl⟩
        exact ⟨⟨rfl, rfl⟩, rfl⟩
      · rintro ⟨⟨rfl, hfirst⟩, hsecond⟩
        exact ⟨rfl, Prod.ext hfirst hsecond⟩
  | step op k ih =>
      rw [onFirst, exec_step, exec_step]
      constructor
      · rintro ⟨x, s₁, ⟨hR, hsecond⟩, h⟩
        obtain ⟨hk, hsecond'⟩ := (ih x).mp h
        exact ⟨⟨x, s₁.1, hR, hk⟩, hsecond'.trans hsecond⟩
      · rintro ⟨⟨x, s₁, hR, hk⟩, hsecond⟩
        exact ⟨x, (s₁, s.2), ⟨hR, rfl⟩, (ih x).mpr ⟨hk, hsecond⟩⟩

theorem exec_second {Ans : Op → Type w} {Ans' : Op' → Type w} {R : Semantics Op Ans σ}
    {R' : Semantics Op' Ans' τ} {op : Op'} {s s' : σ × τ} {x : Ans' op} :
  Exec (R.prod R') (second op : Program (Op ⊕ Op') (Sum.elim Ans Ans') _) s x s'
    ↔ R' op s.2 x s'.2 ∧ s'.1 = s.1
  := @exec_call _ _ _ (R.prod R') (.inr op) s s' x

end Program

namespace Pool

open Program

/-- The pools share the first state, and each program of the first pool projects to the one of the
second pool at its place. -/
structure Projects (Q : ℕ → α → β → Prop)
    (c : Pool (Op ⊕ Op') (Sum.elim Ans Ans') α (σ × τ)) (d : Pool Op Ans β σ) : Prop where
  state : d.state = c.state.1
  threads : ∀ (i : ℕ) p, c.threads[i]? = some p →
    ∃ q, d.threads[i]? = some q ∧ Program.Projects (Q i) p q

variable {R : Semantics Op Ans σ} {R' : Semantics Op' Ans' τ} {Q : ℕ → α → β → Prop}
  {c c' : Pool (Op ⊕ Op') (Sum.elim Ans Ans') α (σ × τ)} {d : Pool Op Ans β σ}

/-- One program moves on, and so does the one that it projects to. -/
theorem Projects.set {s : σ × τ} {i : ℕ} {p : Program (Op ⊕ Op') (Sum.elim Ans Ans') α}
    {q : Program Op Ans β} (h : c.Projects Q d) (hi : i < d.threads.length)
    (hpq : Program.Projects (Q i) p q) :
  Projects Q (⟨s, c.threads.set i p⟩ : Pool (Op ⊕ Op') (Sum.elim Ans Ans') α (σ × τ))
    ⟨s.1, d.threads.set i q⟩
  := by
  refine ⟨rfl, ?_⟩
  intro j p' hj
  rw [List.getElem?_set] at hj
  split at hj
  case isTrue hij =>
      split at hj
      · obtain rfl := Option.some.inj hj
        rw [← hij]
        exact ⟨q, List.getElem?_set_self hi, hpq⟩
      · cases hj
  case isFalse hij =>
      obtain ⟨q', hq', hpq'⟩ := h.threads j p' hj
      rw [List.getElem?_set_ne hij]
      exact ⟨q', hq', hpq'⟩

/-- A step is one of the program that is projected to, or none. -/
theorem Projects.step {i : ℕ} (h : c.Projects Q d) (hstep : Step (R.prod R') i c c') :
  ∃ d', (Step R i d d' ∨ d' = d) ∧ c'.Projects Q d'
  := by
  obtain ⟨op, k, x, hi, hR, hset⟩ := (step_iff _).mp hstep
  obtain ⟨q, hq, hproject⟩ := h.threads i _ hi
  have hlength : i < d.threads.length := (List.getElem?_eq_some_iff.mp hq).1
  obtain ⟨s', ts'⟩ := c'
  obtain rfl := hset
  cases hproject with
  | @first op k l hk =>
      use ⟨s'.1, d.threads.set i (l x)⟩
      constructor
      · apply Or.inl
        apply (step_iff R).mpr
        refine ⟨op, l, x, hq, ?_, rfl⟩
        rw [h.state]
        apply hR.1
      · apply h.set hlength (hk x)
  | @second op k _ hk =>
      use d, Or.inr rfl
      have hset := h.set (s := s') hlength (hk x)
      obtain ⟨hi', rfl⟩ := List.getElem?_eq_some_iff.mp hq
      rw [List.set_getElem_self] at hset
      obtain ⟨s, ts⟩ := d
      obtain rfl : s = s'.1 := h.state.trans hR.2.symm
      apply hset

/-- Programs that run at once do to the first state what the programs do that they project to. -/
theorem Run.project (h : Run (R.prod R') anyStep c c') (hcd : c.Projects Q d) :
  ∃ d', Run R anyStep d d' ∧ c'.Projects Q d'
  := by
  induction h with
  | refl => exact ⟨d, Run.refl, hcd⟩
  | step _ _ hstep ih =>
      obtain ⟨d₁, hrun, hproject⟩ := ih hcd
      obtain ⟨d₂, hnext | rfl, hproject'⟩ := hproject.step hstep
      · exact ⟨d₂, Run.step hrun trivial hnext, hproject'⟩
      · exact ⟨d₂, hrun, hproject'⟩

end Pool
