import OrchestraRag.Library.Program

/-!
# What a program ensures while others run

Between two operations of a program others may change the state, as far as a relation `Rely` allows
it.  A program ensures a property of its value and of the state if it holds when the program
returns, whatever happened in between (`Ensures`); a property that `Rely` keeps then still holds at
the end of a run of programs whose operations follow `Rely` (`Pool.Run.ensures`).
-/

universe u v w

variable {Op : Type u} {Ans : Op → Type v} {α β : Type w} {σ : Type*}

namespace Program

section Ensures

variable (R : Semantics Op Ans σ) (Rely : σ → σ → Prop)

/-- From `s` on, with changes by others that follow `Rely`, the program returns with `Q`. -/
inductive Ensures (Q : α → σ → Prop) : σ → Program Op Ans α → Prop
  | ret {s : σ} {a : α} : Q a s → Ensures Q s (.ret a)
  | step {s : σ} {op : Op} {k : Ans op → Program Op Ans α} :
      (∀ s₁ x s₂, Rely s s₁ → R op s₁ x s₂ → Ensures Q s₂ (k x)) → Ensures Q s (.step op k)

/-- Others do not invalidate the property. -/
def Stable (Q : α → σ → Prop) : Prop :=
  ∀ a s s', Rely s s' → Q a s → Q a s'

variable {R Rely} {Q Q' : α → σ → Prop} {p : Program Op Ans α} {s s' : σ}

theorem Ensures.mono (h : Ensures R Rely Q s p) (hQ : ∀ a s, Q a s → Q' a s) :
  Ensures R Rely Q' s p
  := by
  induction h with
  | ret ha => apply Ensures.ret (hQ _ _ ha)
  | step _ ih => apply Ensures.step ih

/-- Nothing needs to be ensured of what always holds. -/
theorem ensures_of_forall (h : ∀ a s, Q a s) (p : Program Op Ans α) (s : σ) :
  Ensures R Rely Q s p
  := by
  induction p generalizing s with
  | ret a => apply Ensures.ret (h a s)
  | step op k ih =>
      apply Ensures.step
      intro s₁ x s₂ _ _
      apply ih x s₂

/-- Others may move before the program starts. -/
theorem Ensures.later (htrans : ∀ s s' s'', Rely s s' → Rely s' s'' → Rely s s'')
    (hQ : Stable Rely Q) (h : Ensures R Rely Q s p) (hs : Rely s s') :
  Ensures R Rely Q s' p
  := by
  cases h with
  | ret ha => apply Ensures.ret (hQ _ _ _ hs ha)
  | step hk =>
      apply Ensures.step
      intro s₁ x s₂ hs₁ hR
      apply hk s₁ x s₂ (htrans _ _ _ hs hs₁) hR

theorem ensures_call {Ans : Op → Type w} {R : Semantics Op Ans σ} {op : Op} {Q : Ans op → σ → Prop}
    (h : ∀ s₁ x s₂, Rely s s₁ → R op s₁ x s₂ → Q x s₂) :
  Ensures R Rely Q s (call op)
  := by
  apply Ensures.step
  intro s₁ x s₂ hs hR
  apply Ensures.ret (h s₁ x s₂ hs hR)

theorem Ensures.bind {Q' : β → σ → Prop} {f : α → Program Op Ans β} (h : Ensures R Rely Q s p)
    (hf : ∀ a s, Q a s → Ensures R Rely Q' s (f a)) :
  Ensures R Rely Q' s (p >>= f)
  := by
  induction h with
  | ret ha => apply hf _ _ ha
  | step _ ih => apply Ensures.step ih

theorem Ensures.map {Q' : β → σ → Prop} {f : α → β} (h : Ensures R Rely Q s p)
    (hf : ∀ a s, Q a s → Q' (f a) s) :
  Ensures R Rely Q' s (f <$> p)
  := by
  have hmap : f <$> p = p >>= fun a => pure (f a) := rfl
  rw [hmap]
  apply h.bind
  intro a s ha
  apply Ensures.ret (hf a s ha)

/-- A program whose operations follow `Rely` ends with what `Rely` keeps. -/
theorem Uses.ensures {P : Op → Prop} {J : σ → Prop} (h : Uses P p)
    (hP : ∀ op s x s', P op → R op s x s' → Rely s s') (hJ : ∀ s s', Rely s s' → J s → J s')
    (hs : J s) :
  Ensures R Rely (fun _ s => J s) s p
  := by
  induction h generalizing s with
  | ret => apply Ensures.ret hs
  | step hop _ ih =>
      apply Ensures.step
      intro s₁ x s₂ hs₁ hR
      apply ih x (hJ s₁ s₂ (hP _ _ _ _ hop hR) (hJ s s₁ hs₁ hs))

/-- A fallible program goes on from its values only. -/
theorem ensures_fallible_bind {ε : Type w} {x : ExceptT ε (Program Op Ans) α}
    {f : α → ExceptT ε (Program Op Ans) β} {Q' : β → σ → Prop}
    (h : Ensures R Rely (fun r s => ∀ a, r = .ok a → Q a s) s x.run)
    (hf : ∀ a s, Q a s → Ensures R Rely (fun r s => ∀ b, r = .ok b → Q' b s) s (f a).run) :
  Ensures R Rely (fun r s => ∀ b, r = .ok b → Q' b s) s (x >>= f).run
  := by
  apply Ensures.bind h
  rintro (e | a) s hr
  · apply Ensures.ret
    rintro b ⟨⟩
  · apply hf a s (hr a rfl)

end Ensures

end Program

namespace Pool

open Program

variable {R : Semantics Op Ans σ} {Rely : σ → σ → Prop} {Guard : ℕ → Pool Op Ans α σ → Prop}
  {P : Op → Prop}

/-- What each program of a pool ensures, it still ensures after every run, if the operations of all
programs follow `Rely`. -/
theorem Run.ensures {Q : ℕ → α → σ → Prop} {c c' : Pool Op Ans α σ} (hrefl : ∀ s, Rely s s)
    (htrans : ∀ s s' s'', Rely s s' → Rely s' s'' → Rely s s'')
    (hP : ∀ op s x s', P op → R op s x s' → Rely s s')
    (hQ : ∀ i, Stable Rely (Q i)) (h : Run R Guard c c') (huses : ∀ t ∈ c.threads, Uses P t)
    (hthreads : ∀ (i : ℕ) t, c.threads[i]? = some t → Ensures R Rely (Q i) c.state t) :
  ∀ (i : ℕ) t, c'.threads[i]? = some t → Ensures R Rely (Q i) c'.state t
  := by
  induction h with
  | refl => apply hthreads
  | @step i c c' c'' hrun _ hstep ih =>
      have hafter := (hrun.invariant_of_uses (I := fun _ => True)
        (fun _ _ _ _ _ _ _ => trivial) trivial huses).2
      obtain ⟨op, k, x, hi, hR, hset⟩ := (step_iff R).mp hstep
      have hop : P op := by
        cases hafter _ (List.mem_of_getElem? hi) with
        | step hop _ => apply hop
      have hmoved : Rely c'.state c''.state := hP _ _ _ _ hop hR
      intro j t ht
      rw [hset, List.getElem?_set] at ht
      split at ht
      case isTrue hij =>
          split at ht
          · obtain rfl := Option.some.inj ht
            rw [← hij]
            cases ih huses hthreads i _ hi with
            | step hk => apply hk _ _ _ (hrefl _) hR
          · cases ht
      case isFalse =>
          apply (ih huses hthreads j t ht).later htrans (hQ j) hmoved

end Pool
