import OrchestraRag.Library.Program

/-!
# The operations of an execution

`Performs R p s ops a s'` is an execution of the program `p` that lists the operations it
performed, in order.
-/

universe u v w

namespace Program

variable {Op : Type u} {Ans : Op → Type v} {α β : Type w} {σ : Type*}

/-- The program `p` started in `s` may perform `ops`, return `a` and leave `s'`. -/
inductive Performs (R : Semantics Op Ans σ) : Program Op Ans α → σ → List Op → α → σ → Prop
  | ret {a : α} {s : σ} : Performs R (.ret a) s [] a s
  | step {op : Op} {k : Ans op → Program Op Ans α} {s s' s'' : σ} {x : Ans op} {ops : List Op}
      {a : α} : R op s x s' → Performs R (k x) s' ops a s'' →
        Performs R (.step op k) s (op :: ops) a s''

variable {R : Semantics Op Ans σ}

/-- Every execution performs some operations. -/
theorem exists_performs {p : Program Op Ans α} {s s' : σ} {a : α} (h : Exec R p s a s') :
  ∃ ops, Performs R p s ops a s'
  := by
  induction h with
  | ret => exact ⟨[], Performs.ret⟩
  | step hR _ ih =>
      obtain ⟨ops, hops⟩ := ih
      exact ⟨_, Performs.step hR hops⟩

theorem performs_ret {a b : α} {s s' : σ} {ops : List Op} :
  Performs R (.ret a) s ops b s' ↔ ops = [] ∧ b = a ∧ s' = s
  := by
  constructor
  · rintro ⟨⟩
    exact ⟨rfl, rfl, rfl⟩
  · rintro ⟨rfl, rfl, rfl⟩
    apply Performs.ret

theorem performs_step {op : Op} {k : Ans op → Program Op Ans α} {s s'' : σ} {ops : List Op}
    {a : α} :
  Performs R (.step op k) s ops a s'' ↔
    ∃ x s' rest, ops = op :: rest ∧ R op s x s' ∧ Performs R (k x) s' rest a s''
  := by
  constructor
  · rintro (_ | ⟨hR, hk⟩)
    exact ⟨_, _, _, rfl, hR, hk⟩
  · rintro ⟨x, s', rest, rfl, hR, hk⟩
    apply Performs.step hR hk

theorem performs_bind {p : Program Op Ans α} {f : α → Program Op Ans β} {s s'' : σ}
    {ops : List Op} {b : β} (h : Performs R (p >>= f) s ops b s'') :
  ∃ a s' first rest, ops = first ++ rest ∧ Performs R p s first a s'
    ∧ Performs R (f a) s' rest b s''
  := by
  induction p generalizing s ops with
  | ret a => exact ⟨a, s, [], ops, rfl, Performs.ret, h⟩
  | step op k ih =>
      rw [step_bind] at h
      obtain ⟨x, s₁, ops₁, rfl, hR, hk⟩ := performs_step.mp h
      obtain ⟨a, s', first, rest, rfl, hfirst, hrest⟩ := ih x hk
      exact ⟨a, s', op :: first, rest, rfl, Performs.step hR hfirst, hrest⟩

/-- A fallible program goes on from a value and ends with an error. -/
theorem performs_fallible_bind {ε : Type w} {x : ExceptT ε (Program Op Ans) α}
    {f : α → ExceptT ε (Program Op Ans) β} {s s'' : σ} {ops : List Op} {r : Except ε β}
    (h : Performs R (x >>= f : ExceptT ε (Program Op Ans) β) s ops r s'') :
  (∃ a s' first rest, ops = first ++ rest ∧ Performs R x s first (.ok a) s'
      ∧ Performs R (f a) s' rest r s'')
    ∨ ∃ e, r = .error e ∧ Performs R x s ops (.error e) s''
  := by
  have hbind : ∃ a s' first rest, ops = first ++ rest ∧ Performs R x.run s first a s'
      ∧ Performs R (ExceptT.bindCont f a) s' rest r s'' := performs_bind h
  obtain ⟨e | a, s', first, rest, rfl, hx, hf⟩ := hbind
  · obtain ⟨rfl, rfl, rfl⟩ := performs_ret.mp hf
    rw [List.append_nil]
    exact Or.inr ⟨e, rfl, hx⟩
  · exact Or.inl ⟨a, s', first, rest, rfl, hx, hf⟩

/-- A semantics that allows more steps allows the same operations. -/
theorem Performs.mono {R' : Semantics Op Ans σ} (hR : ∀ op s x s', R op s x s' → R' op s x s')
    {p : Program Op Ans α} {s s' : σ} {ops : List Op} {a : α} (h : Performs R p s ops a s') :
  Performs R' p s ops a s'
  := by
  induction h with
  | ret => apply Performs.ret
  | step hop _ ih => apply Performs.step (hR _ _ _ _ hop) ih

/-- A program performs only operations that it uses. -/
theorem Performs.of_uses {P : Op → Prop} {p : Program Op Ans α} {s s' : σ} {ops : List Op} {a : α}
    (h : Performs R p s ops a s') (hp : Uses P p) :
  ∀ op ∈ ops, P op
  := by
  induction h with
  | ret =>
      rintro op ⟨⟩
  | step _ _ ih =>
      cases hp with
      | step hop hk =>
          rw [List.forall_mem_cons]
          exact ⟨hop, ih (hk _)⟩

end Program
